import Mathlib.Data.Nat.ModEq
import ScriptBytecode.Classes.Member

/-!
# When fingerprints collide

The fingerprint of a signature mixes two hashed texts, those of the owner and of the name, with the
fingerprints of the parameters. Each round of the mixing is a bijection of the running word, and the
factor that scales a parameter is odd, so it can be cancelled modulo `2 ^ 64`. As long as a single
component changes, nothing is lost: signatures that differ in one parameter never collide, and those
that differ in the owner or in the name collide just when the hash of texts does not tell the two
apart (`fingerprints_apart`).

The hash of texts may be any function. It is a parameter here, `text`, and `ofMethodBy` and
`ofConstructorBy` are the fingerprints that it leads to.

The steps are `XXH64.rotl_inj` and `Fingerprint.mul_odd_inj` for single rounds, `mixFrom_inj` for
the word before the parameters, and `mixParams_param_inj` for one parameter among them.

**Why the mixing loses nothing.** A round rotates the running word and adds to it the fingerprint of
a parameter, scaled by an odd factor; each of these can be undone if the other operand is known. So
two words that differ stay different through any number of equal rounds (`mixFrom_inj`), which is an
induction over the parameters behind the one that differs. At that parameter itself the words before
are equal and the addends are not.

**What is not promised.** Where more than one component differs, the differences may cancel out, and
the number of parameters is a component too: nothing is said of signatures with lists of different
lengths. No property of the hash of texts is used, not even that it is the one that the project
computes.
-/

namespace ScriptBytecode

/-! ### Words -/

namespace XXH64

variable {n x y : UInt64}

/-- A rotation of a word is one of its bits. -/
theorem toBitVec_rotl (hpos : 0 < n) (hlt : n < 64) (x : UInt64) :
    (rotl x n).toBitVec = x.toBitVec.rotateLeft n.toNat := by
  have hpos : 0 < n.toNat := UInt64.lt_iff_toNat_lt.1 hpos
  have hlt : n.toNat < 64 := UInt64.lt_iff_toNat_lt.1 hlt
  have hback : (64 - n).toNat = 64 - n.toNat :=
    UInt64.toNat_sub_of_le _ _ (UInt64.le_iff_toNat_le.2 hlt.le)
  unfold rotl
  rw [UInt64.toBitVec_or, UInt64.toBitVec_shiftLeft, UInt64.toBitVec_shiftRight,
    BitVec.shiftLeft_eq', BitVec.ushiftRight_eq', BitVec.toNat_umod, BitVec.toNat_umod,
    BitVec.rotateLeft_def]
  show x.toBitVec <<< (n.toNat % 64) ||| x.toBitVec >>> ((64 - n).toNat % 64) = _
  rw [hback, Nat.mod_eq_of_lt hlt, Nat.mod_eq_of_lt (by omega)]

/-- Each bit moves by as many places, and from the end back to the start. -/
theorem getLsbD_rotl (hpos : 0 < n) (hlt : n < 64) (x : UInt64) {i : Nat} (hi : i < 64) :
    (rotl x n).toBitVec.getLsbD ((i + n.toNat) % 64) = x.toBitVec.getLsbD i := by
  have hplaces : n.toNat < 64 := UInt64.lt_iff_toNat_lt.1 hlt
  rw [toBitVec_rotl hpos hlt, BitVec.getLsbD_rotateLeft, Nat.mod_eq_of_lt hplaces]
  by_cases hwrap : i + n.toNat < 64
  · have hhigh : ¬i + n.toNat < n.toNat := by omega
    rw [Nat.mod_eq_of_lt hwrap]
    simp [hwrap, hhigh]
  · -- the bit falls out at the end and comes in again at the start
    have hmod : (i + n.toNat) % 64 = i + n.toNat - 64 := by omega
    have hlow : i + n.toNat - 64 < n.toNat := by omega
    have hsource : 64 - n.toNat + (i + n.toNat - 64) = i := by omega
    rw [hmod, hsource]
    simp [hlow]

/-- A rotation loses nothing. -/
theorem rotl_inj (hpos : 0 < n) (hlt : n < 64) : rotl x n = rotl y n ↔ x = y := by
  refine ⟨fun h ↦ UInt64.toBitVec_inj.1 (BitVec.eq_of_getLsbD_eq fun i hi ↦ ?_),
    congrArg (rotl · n)⟩
  rw [← getLsbD_rotl hpos hlt x hi, ← getLsbD_rotl hpos hlt y hi, h]

end XXH64

namespace Fingerprint

variable {text : String → UInt64} {owner owner' name name' : String} {h h' x y : UInt64}
  {p q : Fingerprint} {ps qs : List Fingerprint}

/-- An odd factor can be cancelled. -/
theorem mul_odd_inj (i : Nat) :
    x * UInt64.ofNat (2 * i + 1) = y * UInt64.ofNat (2 * i + 1) ↔ x = y := by
  refine ⟨fun h ↦ ?_, congrArg (· * UInt64.ofNat (2 * i + 1))⟩
  have hmod : x.toNat * (2 * i + 1) ≡ y.toNat * (2 * i + 1) [MOD 2 ^ 64] := by
    have hnat := congrArg UInt64.toNat h
    rwa [UInt64.toNat_mul, UInt64.toNat_mul, UInt64.toNat_ofNat', Nat.mul_mod_mod,
      Nat.mul_mod_mod] at hnat
  have hodd : Nat.Coprime 2 (2 * i + 1) := (Nat.coprime_mul_left_add_right ..).2 (by decide)
  have hsame := hmod.cancel_right_of_coprime (hodd.pow_left 64)
  exact UInt64.toNat_inj.1 (hsame.eq_of_lt_of_lt x.toNat_lt y.toNat_lt)

/-! ### Mixing -/

/-- Parameters are mixed in one after another, each under its own number. -/
theorem mixFrom_append (i : Nat) (h : UInt64) (ps qs : List Fingerprint) :
    mixFrom i h (ps ++ qs) = mixFrom (i + ps.length) (mixFrom i h ps) qs := by
  induction ps generalizing i h with
  | nil => rfl
  | cons p ps ih =>
    rw [List.cons_append, mixFrom, mixFrom, ih, List.length_cons, Nat.add_right_comm, Nat.add_assoc]

/-- Each round is a bijection of the running word, so all of them are. -/
theorem mixFrom_inj (i : Nat) : mixFrom i h ps = mixFrom i h' ps ↔ h = h' := by
  induction ps generalizing i h h' with
  | nil => rfl
  | cons p ps ih =>
    rw [mixFrom, mixFrom, ih, UInt64.add_left_inj, XXH64.rotl_inj (by decide) (by decide)]

/-- What words differ in before the parameters is not lost. -/
theorem mixParams_inj : mixParams h ps = mixParams h' ps ↔ h = h' := by
  unfold mixParams
  rw [UInt64.xor_left_inj, mixFrom_inj]

/-- Two words that differ after the round of one parameter differ after all that follow. -/
theorem mixParams_param_inj :
    mixParams h (ps ++ p :: qs) = mixParams h (ps ++ q :: qs) ↔ p = q := by
  have hlength : (ps ++ p :: qs).length = (ps ++ q :: qs).length := by simp
  have hword : p.word = q.word ↔ p = q := by
    cases p
    cases q
    rw [mk.injEq]
  unfold mixParams
  rw [hlength, UInt64.xor_left_inj, mixFrom_append, mixFrom_append, mixFrom, mixFrom, mixFrom_inj,
    UInt64.add_right_inj, mul_odd_inj, hword]

/-! ### Signatures -/

/-- The fingerprint of a method of `owner` if texts are hashed by `text`. -/
def ofMethodBy (text : String → UInt64) (owner name : String) (params : List Fingerprint) :
    Fingerprint :=
  ⟨mixParams (methodSeed (text owner) (text name)) params⟩

/-- The fingerprint of a constructor of `owner` if texts are hashed by `text`. -/
def ofConstructorBy (text : String → UInt64) (owner : String) (params : List Fingerprint) :
    Fingerprint :=
  ⟨mixParams (constructorMark ^^^ text owner) params⟩

theorem ofMethodBy_hash : ofMethodBy XXH64.hash = ofMethod := rfl

theorem ofConstructorBy_hash : ofConstructorBy XXH64.hash = ofConstructor := rfl

/-- Methods of different owners collide just if the hashes of the owners do. -/
theorem ofMethodBy_owner_inj :
    ofMethodBy text owner name ps = ofMethodBy text owner' name ps ↔ text owner = text owner' := by
  unfold ofMethodBy methodSeed
  rw [mk.injEq, mixParams_inj, UInt64.xor_left_inj, UInt64.xor_left_inj,
    XXH64.rotl_inj (by decide) (by decide), UInt64.xor_right_inj]

/-- Methods of different names collide just if the hashes of the names do. -/
theorem ofMethodBy_name_inj :
    ofMethodBy text owner name ps = ofMethodBy text owner name' ps ↔ text name = text name' := by
  unfold ofMethodBy methodSeed
  rw [mk.injEq, mixParams_inj, UInt64.xor_right_inj]

/-- Constructors of different owners collide just if the hashes of the owners do. -/
theorem ofConstructorBy_owner_inj :
    ofConstructorBy text owner ps = ofConstructorBy text owner' ps ↔ text owner = text owner' := by
  unfold ofConstructorBy
  rw [mk.injEq, mixParams_inj, UInt64.xor_right_inj]

/-- Methods that differ in one parameter never collide. -/
theorem ofMethodBy_param_inj :
    ofMethodBy text owner name (ps ++ p :: qs) = ofMethodBy text owner name (ps ++ q :: qs) ↔
      p = q := by
  unfold ofMethodBy
  rw [mk.injEq, mixParams_param_inj]

/-- Nor do constructors that differ in one parameter. -/
theorem ofConstructorBy_param_inj :
    ofConstructorBy text owner (ps ++ p :: qs) = ofConstructorBy text owner (ps ++ q :: qs) ↔
      p = q := by
  unfold ofConstructorBy
  rw [mk.injEq, mixParams_param_inj]

/-- Lists of one length that differ at one place are the same before and after it. -/
theorem exists_split_of_differ {α : Type} {as bs : List α} (hlength : as.length = bs.length)
    (hone : ∃! i : Nat, as[i]? ≠ bs[i]?) :
    ∃ before a b after, a ≠ b ∧ as = before ++ a :: after ∧ bs = before ++ b :: after := by
  obtain ⟨i, hi, honly⟩ := hone
  induction as generalizing bs i with
  | nil =>
    rw [List.eq_nil_of_length_eq_zero hlength.symm] at hi
    exact absurd rfl hi
  | cons a as ih =>
    obtain _ | ⟨b, bs⟩ := bs
    · cases hlength
    by_cases hhead : a = b
    · cases i with
      | zero => exact absurd (congrArg some hhead) hi
      | succ i =>
        obtain ⟨before, a', b', after, hne, rfl, rfl⟩ :=
          ih (Nat.succ.inj hlength) i hi fun j hj ↦ Nat.succ.inj (honly (j + 1) hj)
        exact ⟨a :: before, a', b', after, hne, rfl, hhead ▸ rfl⟩
    · -- the place is the first one, so there is none in what follows
      have hfirst : 0 = i := honly 0 fun heq ↦ hhead (Option.some.inj heq)
      have htail : as = bs := by
        refine List.ext_getElem? fun j ↦ by_contra fun hj ↦ ?_
        have hlater : j + 1 = i := honly (j + 1) hj
        omega
      exact ⟨[], a, b, as, hhead, rfl, htail ▸ rfl⟩

/-- Whatever function hashes the texts: signatures with as many parameters that differ in one of
them have different fingerprints, and signatures that differ in the owner or in the name have the
same one just when the hashes of the two texts are the same. -/
theorem fingerprints_apart :
    ofMethod = ofMethodBy XXH64.hash ∧ ofConstructor = ofConstructorBy XXH64.hash ∧
      ∀ (text : String → UInt64) (owner name : String) (ps : List Fingerprint),
        (∀ qs : List Fingerprint, ps.length = qs.length → (∃! i : Nat, ps[i]? ≠ qs[i]?) →
          ofMethodBy text owner name ps ≠ ofMethodBy text owner name qs ∧
            ofConstructorBy text owner ps ≠ ofConstructorBy text owner qs) ∧
        (∀ owner', ofMethodBy text owner name ps = ofMethodBy text owner' name ps ↔
          text owner = text owner') ∧
        (∀ name', ofMethodBy text owner name ps = ofMethodBy text owner name' ps ↔
          text name = text name') ∧
        ∀ owner', ofConstructorBy text owner ps = ofConstructorBy text owner' ps ↔
          text owner = text owner' := by
  refine ⟨ofMethodBy_hash.symm, ofConstructorBy_hash.symm, fun text owner name ps ↦
    ⟨fun qs hlength hone ↦ ?_, fun _ ↦ ofMethodBy_owner_inj, fun _ ↦ ofMethodBy_name_inj,
      fun _ ↦ ofConstructorBy_owner_inj⟩⟩
  obtain ⟨before, p, q, after, hne, rfl, rfl⟩ := exists_split_of_differ hlength hone
  exact ⟨fun heq ↦ hne (ofMethodBy_param_inj.1 heq), fun heq ↦
    hne (ofConstructorBy_param_inj.1 heq)⟩

/-- What `fingerprints_apart` says of two overloads, and of texts that are hashed to their
length. -/
theorem fingerprints_apart_lengths :
    let text : String → UInt64 := fun s ↦ UInt64.ofNat s.length
    let ps : List Fingerprint := [MachineType.int.fingerprint, MachineType.long.fingerprint]
    let qs : List Fingerprint := [MachineType.int.fingerprint, MachineType.int.fingerprint]
    ps.length = qs.length ∧ (∃! i : Nat, ps[i]? ≠ qs[i]?) ∧
      ofMethod "Figures" "scale" ps ≠ ofMethod "Figures" "scale" qs ∧
      ofConstructor "Figures" ps ≠ ofConstructor "Figures" qs ∧
      ofMethodBy text "Circle" "area" ps = ofMethodBy text "Square" "area" ps ∧
      ofMethodBy text "Circle" "area" ps = ofMethodBy text "Circle" "edge" ps ∧
      ofConstructorBy text "Circle" ps ≠ ofConstructorBy text "Figures" ps := by
  intro text ps qs
  have hsecond : ∀ p q r : Fingerprint, q ≠ r →
      [p, q].length = [p, r].length ∧ ∃! i : Nat, [p, q][i]? ≠ [p, r][i]? := by
    intro p q r hne
    refine ⟨rfl, 1, by simpa using hne, fun i hi ↦ ?_⟩
    match i with
    | 0 => exact absurd rfl hi
    | 1 => rfl
    | _ + 2 => exact absurd rfl hi
  have hdistinct : MachineType.long.fingerprint ≠ MachineType.int.fingerprint := by decide +kernel
  have hlists : ps.length = qs.length ∧ ∃! i : Nat, ps[i]? ≠ qs[i]? := hsecond _ _ _ hdistinct
  obtain ⟨hmethod, hconstructor, hapart⟩ := fingerprints_apart
  rw [hmethod, hconstructor]
  -- from here on the two lists could be any that differ at one place
  clear_value ps qs
  obtain ⟨hdiffer, -⟩ := hapart XXH64.hash "Figures" "scale" ps
  obtain ⟨-, howner, hname, hclass⟩ := hapart text "Circle" "area" ps
  obtain ⟨hmethods, hconstructors⟩ := hdiffer qs hlists.1 hlists.2
  exact ⟨hlists.1, hlists.2, hmethods, hconstructors, (howner "Square").2 (by decide),
    (hname "edge").2 (by decide), fun heq ↦ absurd ((hclass "Figures").1 heq) (by decide)⟩

end Fingerprint

end ScriptBytecode
