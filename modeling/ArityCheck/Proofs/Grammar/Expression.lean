import ArityCheck.Grammar.Expression
import ArityCheck.Proofs.Grammar.Functions

/-! Trees of expressions.

A chain grows from the left, so the rules for its links hold whatever was read before, as long as
that is free, and what they give holds its text (`Extends`). Operators are joined by a run of left
sides that wait for their right sides. All that a run holds stays free, and its text is what was
read, when it is settled (`free_settle`) and when it goes on (`Run.Free.extend`). -/
namespace ArityCheck.Grammar

open ArityCheck.Tree

set_option synthInstance.maxSize 1000

variable {x : Rule} {rec : Rec} [∀ goal, Gives .free (rec goal)] {left between : List Tree}

/-! ### Operands -/

instance gives_regex : Gives .firm regex := gives_lexeme_plain

instance gives_template : Gives .firm (template rec) := by
  unfold template
  infer_instance

instance gives_array : Gives .firm (array rec) := by
  unfold array
  infer_instance

instance gives_objectMember : Gives .free (objectMember rec) := by
  unfold objectMember
  infer_instance

instance gives_object : Gives .firm (object rec) := by
  unfold object
  infer_instance

instance gives_named (scope : Scope) : Gives .firm (named rec scope) := by
  unfold named
  infer_instance

instance extends_memberOf [AllMeet .free left] :
    Extends .firm (fullTexts left) (memberOf left) := by
  unfold memberOf
  infer_instance

instance extends_subscriptOf {before : String} [htext : HasText (left ++ between) before]
    [AllMeet .free left] [AllMeet .free between] :
    Extends .firm before (subscriptOf rec left between) := by
  have h : Extends .firm (fullTexts left ++ fullTexts between) (subscriptOf rec left between) := by
    unfold subscriptOf
    infer_instance
  rwa [← fullTexts_append, htext.eq] at h

instance extends_taggedBy [AllMeet .free left] :
    Extends .firm (fullTexts left) (taggedBy rec left) := by
  unfold taggedBy
  infer_instance

instance gives_newExpression [Gives .free x] : Gives .firm (newExpression rec x) := by
  unfold newExpression
  infer_instance

instance gives_importExpression : Gives .free importExpression := by
  unfold importExpression
  infer_instance

instance gives_angled (scope : Scope) : Gives .free (angled rec scope) := by
  unfold angled
  dsimp only
  infer_instance

instance gives_primary (scope : Scope) (depth : Nat) : Gives .free (primary rec scope depth) := by
  induction depth with
  | zero => exact yields_failure
  | succ depth ih =>
    unfold primary
    refine still_nextChar.after_still fun c => ?_
    split
    all_goals try infer_instance
    refine still_nextWord.after_still fun w => ?_
    split
    · infer_instance
    · split <;> infer_instance

/-! ### Chains -/

instance still_afterTypes : Still afterTypes := still_check _

instance extends_instantiated [AllMeet .free left] :
    Extends .firm (fullTexts left) (instantiated rec left) := by
  unfold instantiated
  infer_instance

instance extends_optionally [AllMeet .free left] :
    Extends .firm (fullTexts left) (optionally rec left) := by
  unfold optionally
  infer_instance

instance extends_called [AllMeet .free left] :
    Extends .firm (fullTexts left) (called rec left) := by
  unfold called
  infer_instance

instance extends_updated [AllMeet .free left] :
    Extends .firm (fullTexts left) (updated left) := by
  unfold updated
  infer_instance

instance extends_nonNull [AllMeet .free left] :
    Extends .firm (fullTexts left) (nonNull left) := by
  unfold nonNull
  infer_instance

instance extends_link [AllMeet .free left] :
    Extends .firm (fullTexts left) (link rec left) := by
  unfold link
  refine still_nextChar.after_still fun c => ?_
  split <;> infer_instance

instance gives_linked (scope : Scope) {next : List Tree → Rule}
    [∀ ts : Graded .free, Extends .free (fullTexts ts.val) (next ts.val)] :
    Gives .free (linked rec scope next) := by
  unfold linked
  infer_instance

instance gives_chain (scope : Scope) : Gives .free (chain rec scope) := by
  unfold chain
  infer_instance

instance gives_untypedChain (scope : Scope) : Gives .free (untypedChain rec scope) := by
  unfold untypedChain
  infer_instance

instance extends_appliedWhole [AllMeet .free left] :
    Extends .free (fullTexts left) (appliedWhole rec left) := by
  unfold appliedWhole
  infer_instance

/-! ### Operators before an operand, and assignments -/

instance extends_assigned (scope : Scope) [AllMeet .free left] :
    Extends .firm (fullTexts left) (assigned rec scope left) := by
  unfold assigned
  refine still_nextOperator.after_still fun op => ?_
  split
  · infer_instance
  · dsimp only
    infer_instance

instance gives_chainOrAssignment (scope : Scope) : Gives .free (chainOrAssignment rec scope) := by
  unfold chainOrAssignment
  infer_instance

instance gives_yieldExpression (scope : Scope) : Gives .firm (yieldExpression rec scope) := by
  unfold yieldExpression
  infer_instance

instance gives_usingAssignment (scope : Scope) : Gives .firm (usingAssignment rec scope) := by
  unfold usingAssignment
  infer_instance

instance gives_typeAssertion (scope : Scope) : Gives .firm (typeAssertion rec scope) := by
  unfold typeAssertion
  infer_instance

instance gives_unary_applied {op : Rule} [Gives .free op] [Gives .free x] :
    Gives .firm (unary.applied x op) := by
  unfold unary.applied
  infer_instance

instance gives_unary [Gives .free x] : Gives .firm (unary x) := by
  unfold unary
  refine still_nextChar.after_still fun c => ?_
  split
  all_goals try infer_instance
  refine still_nextWord.after_still fun w => ?_
  split <;> infer_instance

instance gives_untypedOperand (scope : Scope) : Gives .free (untypedOperand rec scope) := by
  unfold untypedOperand
  infer_instance

instance gives_operand (scope : Scope) : Gives .free (operand rec scope) := by
  unfold operand
  refine gives_htmlComments.bind_inner fun comments _ => Gives.bind_outer (?_ : Gives .free _)
    fun found _ => inferInstance
  refine @yields_choice_cons _ _ _ inferInstance (@yields_choice_cons _ _ _ ?_ yields_choice_nil)
  refine still_nextChar.after_still fun c => ?_
  split
  · infer_instance
  · refine still_nextWord.after_still fun w => ?_
    split <;> infer_instance

/-! ### Binary operators -/

/-- A left side that waits is free, and so is its operator. -/
structure Pending.Free (p : Pending) : Prop where
  kind : p.tail.kind.standing = .plain
  left : AllMeet .free p.left
  trees : AllMeet .free p.tail.trees

/-- The text of the left sides that wait, each with its operator. The first of them was read
last. -/
def pendingText : List Pending → String
  | [] => ""
  | p :: ps => pendingText ps ++ fullTexts p.left ++ fullTexts p.tail.trees

/-- All that a run holds is free, and it holds a text. -/
structure Run.Free (text : String) (run : Run) : Prop where
  pending : ∀ p ∈ run.pending, p.Free
  last : AllMeet .free run.last
  text : pendingText run.pending ++ fullTexts run.last = text

theorem free_settle {text : String} (level : Nat) (rightward : Bool) {pending : List Pending}
    {right : List Tree} (h : Run.Free text ⟨pending, right⟩) :
    Run.Free text ⟨(settle level rightward pending right).1,
      (settle level rightward pending right).2⟩ := by
  induction pending generalizing right with
  | nil => exact h
  | cons p ps ih =>
    obtain ⟨hp, hps⟩ := List.forall_mem_cons.mp h.pending
    rw [settle]
    split
    · have hkind : Is p.tail.kind.standing .plain := ⟨hp.kind⟩
      have hleft := hp.left
      have htrees := hp.trees
      have hright : AllMeet .free right := h.last
      refine ih ⟨hps, inferInstance, ?_⟩
      rw [← h.text, pendingText, fullTexts_group, fullTexts_append, fullTexts_append]
      simp only [String.append_assoc]
    · exact h

/-- Nothing waits at the end. -/
theorem settle_zero (pending : List Pending) (right : List Tree) :
    (settle 0 false pending right).1 = [] := by
  induction pending generalizing right with
  | nil => rfl
  | cons p ps ih =>
    rw [settle, if_pos]
    · exact ih _
    · cases hlevel : p.tail.level <;> simp

section Runs

variable {text : String} {run : Run} (h : run.Free text)

include h

theorem Run.Free.finish : Continues .free "" text run.finish := by
  obtain ⟨-, hmeets, htext⟩ := free_settle 0 false h
  refine ⟨hmeets, ?_⟩
  rwa [settle_zero, pendingText] at htext

theorem Run.Free.push {kind : Kind} {level : Nat} {rightward : Bool} {read rest : String}
    {trees right : List Tree} (hkind : kind.standing = .plain)
    (htrees : Continues .free "" read trees) (hright : Continues .free "" rest right) :
    Run.Free (text ++ (read ++ rest)) (run.push ⟨kind, level, rightward, trees⟩ right) := by
  obtain ⟨hpending, hleft, rfl⟩ := free_settle level rightward h
  refine ⟨List.forall_mem_cons.mpr ⟨⟨hkind, hleft, htrees.meets⟩, hpending⟩, hright.meets, ?_⟩
  show pendingText _ ++ fullTexts _ ++ fullTexts trees ++ fullTexts right = _
  rw [htrees.text, hright.text, String.empty_append, String.empty_append, String.append_assoc]

theorem Run.Free.apply : Yields (run.apply rec) fun rest run => run.Free (text ++ rest) := by
  have hsettled := free_settle comparison true h
  unfold Run.apply
  generalize settle comparison true run.pending run.last = settled at hsettled ⊢
  obtain ⟨rest, whole⟩ := settled
  obtain ⟨hrest, hwhole, rfl⟩ := hsettled
  have hwhole : AllMeet .free whole := hwhole
  refine Yields.bind extends_appliedWhole fun read made hmade =>
    still_nextOperator.after_still fun _ => (still_guard _).after_still fun _ =>
      .pure ⟨hrest, hmade.meets, ?_⟩
  rw [hmade.text, String.append_empty, String.append_assoc]

theorem Run.Free.joinedBy (scope : Scope) (op : String) (hx : Gives .free x) :
    Yields (Run.extend.joinedBy rec scope run op x) fun rest run => run.Free (text ++ rest) := by
  unfold Run.extend.joinedBy
  split
  · infer_instance
  · have hoperand (goal : Goal) : Gives .free (rec goal) := inferInstance
    refine Yields.bind hx fun read trees htrees => @yields_orElse _ _ _ _ ?_ ?_
    · refine still_typed.after_still fun _ => (still_guard _).after_still fun _ => ?_
      refine Yields.bind (hoperand _) fun rest right hright => ?_
      simpa only [String.append_assoc] using (h.push rfl htrees hright).apply
    · refine Yields.bind (hoperand _) fun rest right hright => .pure ?_
      rw [String.append_empty]
      exact h.push rfl htrees hright

theorem Run.Free.cast {kind : Kind} (hkind : kind.standing = .plain) (op : String)
    (hx : Gives .free x) :
    Yields (Run.extend.cast run kind op x) fun rest run => run.Free (text ++ rest) := by
  unfold Run.extend.cast
  have hword : Gives .free (keyword op) := inferInstance
  refine still_typed.after_still fun _ => (still_guard _).after_still fun _ =>
    still_sameLine.after_still fun _ => ?_
  refine Yields.bind hword fun read trees htrees => Yields.bind hx fun rest right hright => .pure ?_
  rw [String.append_empty]
  exact h.push hkind htrees hright

theorem Run.Free.extend (scope : Scope) :
    Yields (run.extend rec scope) fun rest run => run.Free (text ++ rest) := by
  unfold Run.extend
  refine still_nextWord.after_still fun w => ?_
  split
  · exact (still_guard _).after_still fun _ => h.joinedBy scope "in" inferInstance
  · exact h.joinedBy scope "instanceof" inferInstance
  · exact h.cast rfl "as" inferInstance
  · exact h.cast rfl "satisfies" inferInstance
  · infer_instance
  · refine still_nextOperator.after_still fun op => ?_
    split
    · exact h.joinedBy scope _ inferInstance
    · infer_instance

end Runs

instance extends_ternaryOf (scope : Scope) [AllMeet .free left] :
    Extends .firm (fullTexts left) (ternaryOf rec scope left) := by
  unfold ternaryOf
  dsimp only
  infer_instance

instance gives_expression (scope : Scope) : Gives .free (expression rec scope) := by
  unfold expression
  have hfirst : Gives .free (rec (.operand scope)) := inferInstance
  have hrun {first : List Tree} (hfirst : AllMeet .free first) :
      Yields (Parse.iterate (·.extend rec scope) (⟨[], first⟩ : Run)) fun rest run =>
        run.Free (fullTexts first ++ rest) :=
    .iterate ⟨List.forall_mem_nil _, hfirst, by simp [pendingText]⟩ fun rest run hrun => by
      simpa only [String.append_assoc] using hrun.extend scope
  refine hfirst.bind_inner fun first hfirst => Yields.bind (hrun hfirst) fun rest run hrun => ?_
  have hjoined : AllMeet .free run.finish := hrun.finish.meets
  have hgoal : Extends .free (fullTexts run.finish)
      (ternaryOf rec scope run.finish <|> pure run.finish) := inferInstance
  refine hgoal.mono fun other ts hts => ⟨hts.meets, ?_⟩
  rw [hts.text, hrun.finish.text, String.empty_append, String.append_assoc]

instance gives_expressions (scope : Scope) : Gives .free (expressions rec scope) := by
  unfold expressions
  have hexpression : Gives .free (rec (.expression scope)) := inferInstance
  have hrest : Gives .free (repeated (seq [comma, rec (.expression scope)])) := inferInstance
  refine hexpression.bind_inner fun first _ => Gives.bind_outer hrest fun rest _ => ?_
  split
  · rename_i hempty
    obtain rfl := List.isEmpty_iff.mp hempty
    rw [hasText_nil.eq, String.append_empty]
    infer_instance
  · infer_instance

end ArityCheck.Grammar
