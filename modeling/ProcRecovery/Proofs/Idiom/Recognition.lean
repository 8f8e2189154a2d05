import ProcRecovery.Procedure.Analysis
import ProcRecovery.Proofs.Outcome

/-!
# What recognition leaves

Every node of a recognized body was there before, apart from the substitution
of cached registers, or stands for the loads of those registers, or stands for
an operation that a template has recognized.  So a property of nodes holds of a
recognized body if it held before and each of these has it.
-/

namespace ProcRecovery

namespace Idiom

theorem exists_window_of_firstMatch?
    {family : List Template} {image : Image} {body : List Node}
    {template : Template} {op : PseudoOp}
    (found : firstMatch? family image body = some (template, op)) :
    template ∈ family ∧ ∃ window,
      template.recognize image window = some op := by
  obtain ⟨candidate, member, matched⟩ := List.exists_of_findSome?_eq_some found
  simp only [Option.map_eq_some_iff, Prod.mk.injEq] at matched
  obtain ⟨recognized, isMatch, rfl, rfl⟩ := matched
  unfold Template.match? at isMatch
  split at isMatch
  next => cases isMatch
  next =>
    simp only [Option.bind_eq_bind, Option.bind_eq_some_iff] at isMatch
    obtain ⟨window, -, isRecognized⟩ := isMatch
    exact ⟨member, window, isRecognized⟩

/-- A property of nodes that whatever a family recognizes has. -/
def Establishes
    (family : List Template)
    (image : Image)
    (holds : Node → Prop) :
    Prop :=
  ∀ template ∈ family, ∀ window op node,
    template.recognize image window = some op →
    node.op = some op → holds node

section Passes

variable {family : List Template} {image : Image} {holds : Node →
  Prop} {body next : List Node}

/--
A pass keeps what its family establishes.  The cases are those of the division
into segments.
-/
theorem forall_mem_of_buildAll
    (establishes : Establishes family image holds)
    (each : ∀ node ∈ body, holds node)
    (built : buildAll (segments family image body) = .ok next) :
    ∀ node ∈ next, holds node := by
  fun_induction segments family image body generalizing next with
  | case1 =>
      cases built
      exact each
  | case2 node later template op found hypothesis =>
      rw [buildAll] at built
      rcases bind_eq_ok_iff.mp built with ⟨single, isSingle, built⟩
      rcases bind_eq_ok_iff.mp built with ⟨rest, isRest, built⟩
      cases built
      rcases exists_window_of_firstMatch? found with
        ⟨member, window, recognized⟩
      rw [List.forall_mem_cons]
      constructor
      · exact establishes template member window op single recognized
          (Node.op_of_wrap isSingle)
      · exact hypothesis (fun other isOther =>
          each other (List.mem_of_mem_drop isOther)) isRest
  | case3 node later found hypothesis =>
      rw [buildAll] at built
      rcases bind_eq_ok_iff.mp built with ⟨same, isSame, built⟩
      rcases bind_eq_ok_iff.mp built with ⟨rest, isRest, built⟩
      cases isSame
      cases built
      rw [List.forall_mem_cons] at each ⊢
      exact ⟨each.1, hypothesis each.2 isRest⟩

theorem forall_mem_of_collapseFamily
    (establishes : Establishes family image holds)
    (each : ∀ node ∈ body, holds node)
    (collapsed : (collapseFamily family image body).outcome = .ok next) :
    ∀ node ∈ next, holds node := by
  fun_induction collapseFamily family image body with
  | case1 body collapses fault events built => cases collapsed
  | case2 body collapses middle events built fewer rest hypothesis =>
      exact hypothesis (forall_mem_of_buildAll establishes each built)
        collapsed
  | case3 body done =>
      cases collapsed
      exact each

theorem forall_mem_of_collapseAll
    (establishes : ∀ family ∈ families, Establishes family image holds)
    (each : ∀ node ∈ body, holds node)
    (collapsed : (collapseAll image body).outcome = .ok next) :
    ∀ node ∈ next, holds node := by
  unfold collapseAll at collapsed
  rw [Traced.outcome_foldlM] at collapsed
  have promised : Delivers (families.foldlM
      (fun current family => (collapseFamily family image current).outcome)
      body)
      (fun reached => ∀ node ∈ reached, holds node) (fun _ => True) := by
    apply Delivers.foldlM each
    intro current currentEach family member
    apply delivers_of_outcome
    · intro reached finished
      exact forall_mem_of_collapseFamily (establishes family member)
        currentEach finished
    · intro fault _
      trivial
  exact promised.of_ok collapsed

theorem forall_mem_of_registerCache
    {options : Options}
    (caches : ∀ node cached, node.op = some (.registerCache cached) →
      holds node)
    (substitutes : ∀ cached node, holds node →
      holds (substituteNode options cached node))
    (each : ∀ node ∈ body, holds node)
    (finished : (registerCache options body).outcome = .ok next) :
    ∀ node ∈ next, holds node := by
  simp only [registerCache] at finished
  split at finished
  next =>
    cases finished
    exact each
  next =>
    simp only [Traced.outcome_bind, Traced.outcome_note,
      Traced.outcome_ofExcept, Traced.outcome_pure, ok_bind] at finished
    rcases bind_eq_ok_iff.mp finished with ⟨loading, wrapped, rest⟩
    cases rest
    intro node member
    rcases List.mem_append.mp member with isFirst | isLater
    · exact each node (List.mem_of_mem_take isFirst)
    · rcases List.mem_cons.mp isLater with rfl | isSubstituted
      · exact caches node _ (Node.op_of_wrap wrapped)
      · rcases List.mem_map.mp isSubstituted with ⟨original, isOriginal, rfl⟩
        exact substitutes _ original
          (each original (List.mem_of_mem_drop isOriginal))

end Passes

end Idiom

/--
What the caching of registers keeps and the templates establish holds of a
recognized body.
-/
theorem Procedure.forall_mem_of_recognize
    {options : Options} {image : Image} {procedure : Nat} {holds : Node → Prop}
    {body next : List Node}
    (establishes : ∀ family ∈ Idiom.families,
      Idiom.Establishes family image holds)
    (caches : ∀ node cached, node.op = some (.registerCache cached) →
      holds node)
    (substitutes : ∀ cached node, holds node →
      holds (Idiom.substituteNode options cached node))
    (each : ∀ node ∈ body, holds node)
    (finished : (recognize options image procedure body).outcome = .ok next) :
    ∀ node ∈ next, holds node := by
  simp only [recognize, Traced.outcome_bind, Traced.outcome_emit,
    Traced.outcome_pure, ok_bind]
    at finished
  rcases bind_eq_ok_iff.mp finished with ⟨cached, isCached, rest⟩
  rcases bind_eq_ok_iff.mp rest with ⟨collapsed, isCollapsed, same⟩
  cases same
  exact Idiom.forall_mem_of_collapseAll establishes
    (Idiom.forall_mem_of_registerCache caches substitutes each isCached)
    isCollapsed

end ProcRecovery
