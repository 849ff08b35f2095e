import ScriptBytecode.Source.Node

/-!
# Induction on syntax trees

A node holds its parts directly, in lists and in options. `Node.inductionOn` is the induction that
functions on nodes call for: the hypothesis for a list of parts, or for an arm that may be missing,
speaks of each part that is there.
-/

namespace ScriptBytecode.Node

/-- To prove a property of all nodes, prove it of every node whose parts have it. -/
@[elab_as_elim]
theorem inductionOn {motive : Node → Prop} (n : Node)
    (script : ∀ name body span, motive body → motive (script name body span))
    (body : ∀ nodes type span, (∀ n ∈ nodes, motive n) → motive (body nodes type span))
    (classDef : ∀ name superclass interfaces members span, (∀ n ∈ members, motive n) →
      motive (classDef name superclass interfaces members span))
    (methodDef : ∀ name params returnType body isStatic span, motive body →
      motive (methodDef name params returnType body isStatic span))
    (constructorDef : ∀ params body span, motive body → motive (constructorDef params body span))
    (importDef : ∀ full asName span, motive (importDef full asName span))
    (literal : ∀ value type span, motive (literal value type span))
    (typeName : ∀ name span, motive (typeName name span))
    (selfRef : ∀ type span, motive (selfRef type span))
    (readLocal : ∀ name type span, motive (readLocal name type span))
    (assign : ∀ name value type span, motive value → motive (assign name value type span))
    (call : ∀ receiver name args type span, motive receiver → (∀ n ∈ args, motive n) →
      motive (call receiver name args type span))
    (selfCall : ∀ name args type span, (∀ n ∈ args, motive n) →
      motive (selfCall name args type span))
    (branch : ∀ condition thenArm elseArm type span, motive condition → motive thenArm →
      (∀ n ∈ elseArm, motive n) → motive (branch condition thenArm elseArm type span))
    (loop : ∀ condition body checkFirst negative type span, motive condition → motive body →
      motive (loop condition body checkFirst negative type span))
    (noop : ∀ span, motive (noop span)) : motive n := by
  refine @Node.rec motive (fun nodes ↦ ∀ n ∈ nodes, motive n) (fun arm ↦ ∀ n ∈ arm, motive n)
    script body classDef methodDef constructorDef importDef literal typeName selfRef
      readLocal assign
    call selfCall branch loop noop ?_ ?_ ?_ ?_ n
  · simp
  · intro head tail hhead htail
    simpa using ⟨hhead, htail⟩
  · simp
  · intro n hn
    simpa using hn

end ScriptBytecode.Node
