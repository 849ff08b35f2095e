import ScriptBytecode.Proofs.Stack.Nodes

/-!
# The operand stack in the midst of any method

What a node does to the operand stack depends neither on the code before it nor on what else has
been compiled. So it can be said of any method under construction, whatever its code, its labels and
the stack that the assembler follows: as long as nothing is wrong with it and control arrives, a
node compiled for its value puts one value of its type on the stack, and a node compiled for its
effects leaves the stack as it was.

The statement needs three things of a state: constructors have no result, the locals of all open
methods were declared one by one, and the assembler is `Assembler.Live`. It asks nothing of the
instructions emitted so far, which is why typed code does not occur in it: the induction over nodes
is run with an outset that promises nothing about the code before (`Outset.typed` is false there)
and for which every method counts as fine.

It is stated for successes only. That a failure leaves open what was open is said elsewhere.
-/

namespace ScriptBytecode

/-- A session in which nothing is known of the methods finished so far. -/
theorem Session.Good.of_built {s : Session} (hvoid : s.classes.VoidConstructors)
    (hlocals : ∀ m, .ofMethod m ∈ s.scopes.frames → m.locals.Built) : s.Good fun _ ↦ True where
  constructors := hvoid
  verified _ _ := trivial
  frames := by
    intro frame hframe
    cases frame with
    | ofClass c => exact fun _ _ ↦ trivial
    | ofMethod m => exact (hlocals m hframe).typed
  finished _ _ _ _ := trivial

namespace Gen

/-- In any session whose constructors have no result and whose open methods have declared their
locals one by one, and behind any code that has no fault and that control arrives behind: compiled
for its value, a node leaves one value of its type on the stack; compiled for its effects, it leaves
the stack as it was and has no type; and received at a type that has values, it leaves one value of
that type. -/
theorem live_node (n : Node) {g : GenState} {stack : List StackKind}
    (hvoid : g.session.classes.VoidConstructors)
    (hlocals : ∀ m, .ofMethod m ∈ g.session.scopes.frames → m.locals.Built)
    (hlive : g.asm.Live stack) :
    (Yields (node n .push) g fun type g' ↦
      type ≠ .void ∧ ∃ kind, type.kind? = some kind ∧ g'.asm.Live (kind :: stack)) ∧
    (Yields (node n .discard) g fun type g' ↦ type = .void ∧ g'.asm.Live stack) ∧
    ∀ target : MachineType, target ≠ .void → Yields (receive target n.span (node n)) g fun _ g' ↦
      ∃ kind, target.kind? = some kind ∧ g'.asm.Live (kind :: stack) := by
  -- nothing is asked of the code that is there, so what follows it need not be typed
  let o : Outset := { session := g.session, fine := fun _ ↦ True, typed := False }
  have hready : Ready o g.asm.labels g stack :=
    ⟨.refl (.of_built hvoid hlocals), hlive, False.elim, .refl _⟩
  have hdelivers := (compiled n).delivers
  have hvalue : ∀ {type : MachineType}, type ≠ .void → ∃ kind, type.kind? = some kind := by
    intro type hne
    exact Option.ne_none_iff_exists'.1 fun hnone ↦ hne (MachineType.kind?_eq_none_iff.1 hnone)
  refine ⟨?_, ?_, fun target hne ↦ ?_⟩
  · refine (hdelivers.run .push hready trivial).mono (fun type g' hleft ↦ ?_) fun _ _ _ ↦ trivial
    have hne : type ≠ .void := fun h ↦ by cases hleft.eq_void_iff.1 h
    obtain ⟨kind, hkind⟩ := hvalue hne
    have hlive' := hleft.ready.live
    rw [hkind] at hlive'
    exact ⟨hne, kind, hkind, hlive'⟩
  · refine (hdelivers.run .discard hready trivial).mono (fun type g' hleft ↦ ?_) fun _ _ _ ↦ trivial
    obtain rfl := hleft.eq_void_iff.2 rfl
    exact ⟨rfl, hleft.ready.live⟩
  · refine (ready_receive hdelivers hready target n.span).mono (fun _ g' hready' ↦ ?_)
      fun _ _ _ ↦ trivial
    obtain ⟨kind, hkind⟩ := hvalue hne
    have hlive' := hready'.live
    rw [hkind] at hlive'
    exact ⟨kind, hkind, hlive'⟩

/-- A loop that has a value. -/
def valuedLoop : Node :=
  .loop (.literal (.bool false) (.named "boolean") {}) (.literal (.int 1) (.named "int") {}) true
    false (.named "int") {}

/-- A method that holds a number on its stack, and whose code is not known. -/
def holding : GenState where
  session := { classes := .standard, scopes := { frames := [.ofMethod { name := "f" }] } }
  asm := { stack := [.long], maxStack := 2 }

/-- A loop with a value, in the middle of a method in which a wide value waits on the stack. -/
theorem live_node_valuedLoop : holding.session.classes.VoidConstructors ∧
    (∀ m, .ofMethod m ∈ holding.session.scopes.frames → m.locals.Built) ∧
    holding.asm.Live [.long] ∧ ∃ type g', node valuedLoop .push holding = .ok type g' ∧
      type ≠ .void ∧ ∃ kind, type.kind? = some kind ∧ g'.asm.Live (kind :: [.long]) := by
  have hvoid : holding.session.classes.VoidConstructors := by
    dsimp only [holding]
    exact ClassTable.voidConstructors_standard
  have hlocals : ∀ m, .ofMethod m ∈ holding.session.scopes.frames → m.locals.Built := by
    intro m hm
    obtain rfl : m = { name := "f" } := Frame.ofMethod.inj (List.mem_singleton.1 hm)
    exact .empty
  have hlive : holding.asm.Live [.long] := ⟨rfl, rfl, rfl⟩
  have hcompiles : (match node valuedLoop .push holding with
      | .ok _ _ => true
      | .error _ _ => false) = true := by decide +kernel
  obtain ⟨hpush, -, -⟩ := live_node valuedLoop hvoid hlocals hlive
  cases hrun : node valuedLoop .push holding with
  | ok type g' => exact ⟨hvoid, hlocals, hlive, type, g', rfl, hpush.of_ok hrun⟩
  | error e g' =>
    rw [hrun] at hcompiles
    cases hcompiles

end Gen

end ScriptBytecode
