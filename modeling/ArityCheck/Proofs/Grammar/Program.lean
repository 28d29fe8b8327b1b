import ArityCheck.Grammar.Program
import ArityCheck.Proofs.Grammar.Expression

/-! Trees of statements and of whole texts.

Rules come to each other through `reach`, which goes down to some depth and remembers what each goal
gave at each place. By induction on that depth, every goal gives free trees that hold what it reads,
and so does all that is remembered (`gives_reach`). So the tree of a text holds the text
(`fullText_parse`) and is lined (`lined_parse`), whatever the text is, and names in it are lexemes
(`isNamedByLexemes_parse`). -/
namespace ArityCheck.Grammar

open ArityCheck.Tree

set_option synthInstance.maxSize 1000

variable {k : Kind} {x : Rule} {rec : Rec} [∀ goal, Gives .free (rec goal)]

/-! ### Statements and variables -/

instance gives_block : Gives .firm (block rec) := by
  unfold block
  infer_instance

instance gives_expressionStatement : Gives .firm (expressionStatement rec) := by
  unfold expressionStatement
  infer_instance

instance gives_bracedStatement : Gives .free (bracedStatement rec) := by
  unfold bracedStatement
  infer_instance

theorem yields_declarator (scope : Scope) : Yields (declarator rec scope) fun text found =>
    AllMeet .free found.1 ∧ fullTexts found.1 = text := by
  unfold declarator
  have hname : Gives .any (field .name (destructuring rec <|> identifier)) := inferInstance
  have hascribed : Gives .any
      (opt (whenTyped (seq [opt (operator "!"), field .type (typeAscription rec)]))) :=
    inferInstance
  have hvalue : Gives .any (opt (initializer rec scope)) := inferInstance
  refine hname.yields_bind fun name _ => hascribed.yields_bind fun ascribed _ =>
    hvalue.yields_bind fun value _ => .pure ⟨inferInstance, ?_⟩
  rw [fullTexts_group, fullTexts_append, fullTexts_append, String.append_empty, String.append_assoc]

theorem yields_declarators (scope : Scope) : Yields (declarators rec scope) fun text found =>
    AllMeet .free found.1 ∧ fullTexts found.1 = text := by
  unfold declarators
  have hcomma : Gives .free comma := inferInstance
  refine (yields_declarator scope).bind fun text first hfirst => .iterate ?_ ?_
  · rwa [String.append_empty]
  · rintro rest ⟨done, valued⟩ ⟨hdone, htext⟩
    refine hcomma.yields_bind fun mark _ => (yields_declarator scope).bind ?_
    rintro _ ⟨next, valued⟩ ⟨hnext, rfl⟩
    refine .pure ⟨inferInstance, ?_⟩
    rw [fullTexts_append, fullTexts_append, htext, String.append_empty, String.append_assoc,
      String.append_assoc]

theorem yields_variableHead : Yields variableHead fun text found =>
    (found.1.standing = .plain ∧ AllMeet .free found.2) ∧ fullTexts found.2 = text := by
  have hpair {kind : Kind} (hkind : kind.standing = .plain) {head : List Tree}
      (hhead : AllMeet .free head) : Yields (pure (kind, head) : Parse (Kind × List Tree))
        fun rest found => (found.1.standing = .plain ∧ AllMeet .free found.2) ∧
          fullTexts found.2 = fullTexts head ++ rest :=
    .pure ⟨⟨hkind, hhead⟩, String.append_empty.symm⟩
  have hword (w : String) : Gives .free (keyword w) := inferInstance
  unfold variableHead
  refine still_nextWord.after_still fun w => ?_
  split
  · exact (hword _).yields_bind fun _ h => hpair rfl h
  · exact (hword _).yields_bind fun _ h => hpair rfl h
  · exact (hword _).yields_bind fun _ h => (still_notEnding _).after_still fun _ => hpair rfl h
  · exact (hword _).yields_bind fun _ h => still_sameLine.after_still fun _ => hpair rfl h
  · have hhead : Gives .free (seq [keyword "await", do sameLine; keyword "using"]) := inferInstance
    exact hhead.yields_bind fun _ h => still_sameLine.after_still fun _ => hpair rfl h
  · infer_instance

instance gives_variableStatement : Gives .firm (variableStatement rec) := by
  unfold variableStatement
  refine yields_variableHead.bind_extends ?_
  rintro ⟨kind, head⟩ ⟨hkind, hhead⟩
  have hkind : Is kind.standing .plain := ⟨hkind⟩
  refine (yields_declarators _).bind_extends ?_
  rintro ⟨names, valued⟩ hnames
  rw [String.empty_append]
  infer_instance

/-! ### Declarations -/

instance gives_nestedName : Gives .firm nestedName := by
  unfold nestedName
  infer_instance

instance gives_typeAlias : Gives .firm (typeAlias rec) := by
  unfold typeAlias
  infer_instance

instance gives_interface : Gives .firm (interface rec) := by
  unfold interface
  infer_instance

instance gives_enumBody : Gives .firm (enumBody rec) := by
  unfold enumBody
  infer_instance

instance gives_enumeration : Gives .firm (enumeration rec) := by
  unfold enumeration
  infer_instance

instance gives_namespaceWith [Is k.standing .plain] (w : String) :
    Gives .firm (namespaceWith rec k w) := by
  unfold namespaceWith
  infer_instance

instance gives_importAlias_typeWord : Gives .free importAlias.typeWord := by
  unfold importAlias.typeWord
  infer_instance

instance gives_importAlias : Gives .firm importAlias := by
  unfold importAlias
  infer_instance

instance gives_ambient [Gives .free x] : Gives .firm (ambient rec x) := by
  unfold ambient
  infer_instance

instance gives_declaration (depth : Nat) : Gives .free (declaration rec depth) := by
  induction depth with
  | zero => exact yields_failure
  | succ depth ih =>
    unfold declaration
    refine still_typed.after_still fun types => still_nextWord.after_still fun w => ?_
    split
    all_goals try infer_instance
    split
    · infer_instance
    · split <;> infer_instance

instance gives_declarationAny : Gives .free (declarationAny rec) := by
  unfold declarationAny
  infer_instance

/-! ### Modules -/

instance gives_moduleName : Gives .firm moduleName := by
  unfold moduleName
  infer_instance

instance gives_fromClause : Gives .free fromClause := by
  unfold fromClause
  infer_instance

instance gives_attributes : Gives .firm (attributes rec) := by
  unfold attributes
  infer_instance

instance gives_namespaceImport : Gives .firm namespaceImport := by
  unfold namespaceImport
  infer_instance

instance gives_specifier_kindWord : Gives .free specifier.kindWord := by
  unfold specifier.kindWord
  infer_instance

instance gives_specifier [Is k.standing .plain] : Gives .firm (specifier k) := by
  unfold specifier
  infer_instance

instance gives_namedImports : Gives .firm namedImports := by
  unfold namedImports
  infer_instance

instance gives_importClause : Gives .firm importClause := by
  unfold importClause
  infer_instance

instance gives_importStatement : Gives .firm (importStatement rec) := by
  unfold importStatement
  dsimp only
  infer_instance

instance gives_exportClause : Gives .firm exportClause := by
  unfold exportClause
  infer_instance

instance gives_defaultExport : Gives .free (defaultExport rec) := by
  unfold defaultExport
  infer_instance

instance gives_exportStatement : Gives .firm (exportStatement rec) := by
  unfold exportStatement
  infer_instance

/-! ### Control -/

instance gives_condition : Gives .firm (condition rec) := by
  unfold condition
  infer_instance

instance gives_body : Gives .free (body rec) := by
  unfold body
  infer_instance

instance gives_ifStatement : Gives .firm (ifStatement rec) := by
  unfold ifStatement
  infer_instance

instance gives_switchStatement : Gives .firm (switchStatement rec) := by
  unfold switchStatement
  infer_instance

instance gives_forInHead_inOrOf : Gives .free forInHead.inOrOf := by
  unfold forInHead.inOrOf
  infer_instance

instance gives_forInHead_declared : Gives .free (forInHead.declared rec) := by
  unfold forInHead.declared
  refine yields_variableHead.bind_extends ?_
  rintro ⟨kind, head⟩ ⟨-, hhead⟩
  rw [String.empty_append]
  infer_instance

instance gives_forInHead : Gives .free (forInHead rec) := by
  unfold forInHead
  infer_instance

instance gives_forHead : Gives .free (forHead rec) := by
  unfold forHead
  refine @gives_seq_cons _ _ _ (@yields_choice_cons _ _ _ (@gives_field _ _ _ inferInstance ?_)
    inferInstance) inferInstance
  refine yields_variableHead.bind_extends ?_
  rintro ⟨kind, head⟩ ⟨hkind, hhead⟩
  have hkind : Is kind.standing .plain := ⟨hkind⟩
  refine (yields_declarators _).bind_extends ?_
  rintro ⟨names, valued⟩ hnames
  rw [String.empty_append]
  infer_instance

instance gives_forStatement : Gives .firm (forStatement rec) := by
  unfold forStatement
  infer_instance

instance gives_tryStatement : Gives .firm (tryStatement rec) := by
  unfold tryStatement
  infer_instance

instance gives_jumpStatement [Is k.standing .plain] (w : String) :
    Gives .firm (jumpStatement k w) := by
  unfold jumpStatement
  infer_instance

instance gives_returnStatement : Gives .firm (returnStatement rec) := by
  unfold returnStatement
  infer_instance

instance gives_labeledStatement : Gives .firm (labeledStatement rec) := by
  unfold labeledStatement
  infer_instance

instance gives_keywordStatement (w : String) : Gives .firm (keywordStatement rec w) := by
  unfold keywordStatement
  split <;> infer_instance

instance gives_statement : Gives .free (statement rec) := by
  unfold statement
  refine gives_htmlComments.bind_inner fun comments _ => still_nextChar.after_still fun c => ?_
  dsimp only
  split
  all_goals try infer_instance
  refine still_nextWord.after_still fun w => ?_
  split <;> infer_instance

/-! ### Programs -/

instance gives_rule (goal : Goal) : Gives .free (rule rec goal) := by
  cases goal <;> unfold rule <;> infer_instance

theorem Memo.Faithful.insert {m : Memo} {cs : Chars} (hm : m.Faithful cs) (goal : Goal) (i : Nat)
    {found : Option (List Tree × Nat)} (h : ∀ trees j, found = some (trees, j) →
      i ≤ j ∧ Continues .free "" (slice cs i j) trees) : (m.insert goal i found).Faithful cs := by
  intro k e he trees j hentry
  rw [Memo.insert, Array.getD_eq_getD_getElem?, Array.getElem?_modify] at he
  have hold := hm k e
  rw [Array.getD_eq_getD_getElem?] at hold
  split at he
  · rename_i hik
    cases hk : m[k]? with
    | none => simp [hk] at he
    | some entries =>
      simp only [hk, Option.map_some, Option.getD_some, List.mem_cons] at he hold
      rcases he with rfl | he
      · exact hik ▸ h trees j hentry
      · exact hold he trees j hentry
  · exact hold he trees j hentry

/-- What is in the table was put there. -/
theorem Memo.Faithful.find? {m : Memo} {cs : Chars} (hm : m.Faithful cs) {goal : Goal} {i j : Nat}
    {trees : List Tree} (h : m.find? goal i = some (some (trees, j))) :
    i ≤ j ∧ Continues .free "" (slice cs i j) trees := by
  obtain ⟨before, after, hentries, -⟩ := List.lookup_eq_some_iff.mp h
  exact hm i (goal, some (trees, j)) (by simp [hentries]) trees j rfl

/-- **Every goal gives free trees that hold what it reads**, however deep the rules refer to each
other. -/
instance gives_reach (depth : Nat) (goal : Goal) : Gives .free (reach depth goal) := by
  induction depth generalizing goal with
  | zero => exact yields_failure
  | succ depth ih =>
    refine ⟨fun s i m hm => ?_⟩
    cases hfind : m.find? goal i with
    | some found =>
      simp only [reach, hfind]
      refine ⟨hm, fun trees j hfound => ?_⟩
      rw [hfound] at hfind
      exact hm.find? hfind
    | none =>
      have hrule : Gives .free (rule (reach depth) goal) := inferInstance
      obtain ⟨hfaithful, hfound⟩ := hrule.run s i m hm
      simp only [reach, hfind]
      exact ⟨hfaithful.insert goal i hfound, hfound⟩

instance gives_hashBang : Gives .firm hashBang := by
  refine @gives_lexeme_plain _ _ _ ⟨fun {cs i j} h => ?_⟩
  split at h
  · obtain rfl := Option.some.inj h
    exact le_skipWhile _ _ _
  · cases h

instance gives_program : Gives .free (program rec) := by
  unfold program
  infer_instance

theorem Memo.faithful_empty (length : Nat) (cs : Chars) : (Memo.empty length).Faithful cs := by
  intro i e he
  rw [Memo.empty, Array.getD_eq_getD_getElem?, Array.getElem?_replicate] at he
  split at he <;> simp at he

theorem eq_true_of_guard {b : Bool} {u : Unit} (h : (guard (b = true) : Option Unit) = some u) :
    b = true := by
  cases b with
  | true => rfl
  | false => exact absurd h.symm (Option.some_ne_none u)

theorem slice_zero_size (text : String) :
    slice text.toList.toArray 0 text.toList.toArray.size = text := by
  rw [slice, Array.extract_size, String.ofList_toList]

/-- A tree that was read holds the text, and it is lined. -/
theorem readProgram?_eq_some {dialect : Dialect} {text : String} {t : Tree}
    (h : readProgram? dialect text = some t) : t.fullText = text ∧ t.Lined := by
  unfold readProgram? at h
  obtain ⟨⟨trees, stop⟩, hread, h⟩ := Option.bind_eq_some_iff.mp h
  obtain ⟨_, hend, h⟩ := Option.bind_eq_some_iff.mp h
  have hprogram (depth : Nat) : Gives .free (program (reach depth)) := inferInstance
  obtain ⟨-, htrees⟩ := ((hprogram _).run _ _ _ (Memo.faithful_empty _ _)).2 trees stop hread
  have hcomments := continues_commentsBefore text.toList.toArray stop
  have hblanks := skipTrivia_eq text.toList.toArray stop
  simp only at h htrees
  generalize commentsBefore text.toList.toArray stop = found at h hcomments hblanks
  obtain ⟨comments, blanks⟩ := found
  obtain rfl := Option.some.inj h
  obtain ⟨hgap, hcomments⟩ := hcomments
  have hstop : blanks ≤ text.toList.toArray.size := by
    rw [← beq_iff_eq.mp (eq_true_of_guard hend), hblanks]
    exact le_skipBlanks _ _
  constructor
  · rw [fullText, fullTexts_append, fullTexts_append, fullTexts_singleton, fullText, htrees.text,
      hcomments.text, String.empty_append, String.empty_append, String.append_empty,
      slice_append_slice (Nat.zero_le stop) hgap, slice_append_slice (Nat.zero_le _) hstop,
      slice_zero_size]
  · refine .node (.inr rfl) ?_ (by simp)
    rw [List.forall_mem_append, List.forall_mem_append, List.forall_mem_singleton]
    exact ⟨⟨htrees.meets.lined, hcomments.meets.lined⟩, .leaf (by simp)⟩

/-- **A tree holds the text that it was read from**, also if that could not be read. -/
theorem fullText_parse (dialect : Dialect) (text : String) :
    (parse dialect text).fullText = text := by
  rw [parse]
  cases h : readProgram? dialect text with
  | some t => exact (readProgram?_eq_some h).1
  | none =>
    rw [Option.getD_none, fullText, fullTexts_singleton, fullText, String.empty_append]

/-- **The tree of a text is lined.** -/
theorem lined_parse (dialect : Dialect) (text : String) : (parse dialect text).Lined := by
  rw [parse]
  cases h : readProgram? dialect text with
  | some t => exact (readProgram?_eq_some h).2
  | none => exact .node (.inr rfl) (List.forall_mem_singleton.mpr (.leaf (by simp))) (by simp)

/-- **Names in the tree of a text are lexemes.** -/
theorem isNamedByLexemes_parse (dialect : Dialect) (text : String) :
    (parse dialect text).isNamedByLexemes = true :=
  (lined_parse dialect text).isNamedByLexemes

end ArityCheck.Grammar
