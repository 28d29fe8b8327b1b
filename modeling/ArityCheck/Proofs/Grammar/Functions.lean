import ArityCheck.Grammar.Functions
import ArityCheck.Grammar.Markup
import ArityCheck.Proofs.Grammar.Parse

/-! Trees of members, types, patterns, functions, classes and markup.

Each rule has an instance, which says how far what it gives may serve as a child, and that it holds
the text: a rule that ends in a word or in a node says so, and all others are free at least. The
rules refer to each other through `rec`, of which the same is assumed. Where a rule goes by the next
character or the next word, its cases are told apart before the search begins. -/
namespace ArityCheck.Grammar

open ArityCheck.Tree

set_option synthInstance.maxSize 1000

variable {k : Kind} {x : Rule} {rec : Rec} [∀ goal, Gives .free (rec goal)]

/-! ### Members -/

instance gives_computedKey : Gives .firm (computedKey rec) := by
  unfold computedKey
  infer_instance

instance gives_propertyName : Gives .firm (propertyName rec) := by
  unfold propertyName
  infer_instance

instance still_keyAhead : Still keyAhead := still_check _

instance gives_modifier (w : String) (divided : Bool) : Gives .free (modifier w divided) := by
  unfold modifier
  dsimp only
  infer_instance

instance gives_star : Gives .firm star := gives_operator _

instance gives_question : Gives .firm question := gives_operator _

instance gives_initializer (scope : Scope) : Gives .free (initializer rec scope) := by
  unfold initializer
  infer_instance

instance gives_spread : Gives .firm (spread rec) := by
  unfold spread
  infer_instance

instance gives_arguments : Gives .firm (arguments rec) := by
  unfold arguments
  infer_instance

instance gives_parenthesized : Gives .firm (parenthesized rec) := by
  unfold parenthesized
  infer_instance

instance gives_decorated : Gives .free (decorated rec) := by
  unfold decorated
  infer_instance

instance gives_decorator : Gives .firm (decorator rec) := by
  unfold decorator
  infer_instance

instance gives_decorators : Gives .firm (decorators rec) := by
  unfold decorators
  infer_instance

/-! ### Types -/

instance gives_typeAscription : Gives .firm (typeAscription rec) := by
  unfold typeAscription
  infer_instance

instance gives_typeParameter : Gives .firm (typeParameter rec) := by
  unfold typeParameter
  infer_instance

instance gives_typeParameters : Gives .firm (typeParameters rec) := by
  unfold typeParameters
  infer_instance

instance gives_thisWord : Gives .firm thisWord := by
  unfold thisWord
  infer_instance

instance gives_typePredicate : Gives .firm (typePredicate rec) := by
  unfold typePredicate
  infer_instance

instance gives_asserts : Gives .firm (asserts rec) := by
  unfold asserts
  infer_instance

instance gives_resultType : Gives .free (resultType rec) := by
  unfold resultType
  infer_instance

instance gives_returnType : Gives .firm (returnType rec) := by
  unfold returnType
  infer_instance

instance gives_signature (scope : Scope) : Gives .free (signature rec scope) := by
  unfold signature
  infer_instance

instance gives_functionType : Gives .firm (functionType rec) := by
  unfold functionType
  infer_instance

instance gives_constructorType : Gives .firm (constructorType rec) := by
  unfold constructorType
  infer_instance

instance gives_accessibility : Gives .firm accessibility := by
  unfold accessibility
  infer_instance

instance gives_override : Gives .firm override := by
  unfold override
  infer_instance

instance gives_memberModifiers : Gives .free memberModifiers := by
  unfold memberModifiers
  infer_instance

instance gives_methodSignature : Gives .firm (methodSignature rec) := by
  unfold methodSignature
  infer_instance

instance gives_propertySignature : Gives .firm (propertySignature rec) := by
  unfold propertySignature
  infer_instance

instance gives_constructSignature : Gives .firm (constructSignature rec) := by
  unfold constructSignature
  infer_instance

instance gives_indexResult : Gives .firm (indexResult rec) := by
  unfold indexResult
  infer_instance

instance gives_indexSignature : Gives .firm (indexSignature rec) := by
  unfold indexSignature
  infer_instance

instance gives_typeMember : Gives .firm (typeMember rec) := by
  unfold typeMember
  infer_instance

instance gives_objectType : Gives .firm (objectType rec) := by
  unfold objectType
  infer_instance

instance gives_typeArguments : Gives .firm (typeArguments rec) := by
  unfold typeArguments
  infer_instance

instance gives_importType : Gives .firm (importType rec) := by
  unfold importType
  infer_instance

instance gives_typeQuery : Gives .firm (typeQuery rec) := by
  unfold typeQuery
  infer_instance

instance gives_namedType : Gives .free (namedType rec) := by
  unfold namedType
  infer_instance

instance gives_tupleMember : Gives .free (tupleMember rec) := by
  unfold tupleMember
  infer_instance

instance gives_tupleType : Gives .firm (tupleType rec) := by
  unfold tupleType
  infer_instance

instance gives_templateType : Gives .firm (templateType rec) := by
  unfold templateType
  infer_instance

instance gives_primaryType : Gives .free (primaryType rec) := by
  unfold primaryType
  refine still_nextChar.after_still fun c => ?_
  split
  all_goals try infer_instance
  refine still_nextWord.after_still fun w => ?_
  split
  · infer_instance
  · split
    · infer_instance
    · split
      · infer_instance
      · split <;> infer_instance

instance gives_postfixedType : Gives .free (postfixedType rec) := by
  unfold postfixedType
  infer_instance

instance gives_inferType : Gives .firm (inferType rec) := by
  unfold inferType
  infer_instance

instance gives_typeOperand : Gives .free (typeOperand rec) := by
  unfold typeOperand
  refine still_nextChar.after_still fun c => ?_
  split
  all_goals try infer_instance
  refine still_nextWord.after_still fun w => ?_
  split <;> infer_instance

instance gives_joined [Is k.standing .plain] (op : String) [Gives .free x] :
    Gives .free (joined k op x) := by
  unfold joined
  infer_instance

instance gives_unionType : Gives .free (unionType rec) := by
  unfold unionType
  infer_instance

instance gives_type : Gives .free (type rec) := by
  unfold type
  infer_instance

/-! ### Patterns -/

instance gives_target : Gives .free (target rec) := by
  unfold target
  infer_instance

instance gives_withDefault [Is k.standing .plain] [Gives .free x] :
    Gives .free (withDefault rec k x) := by
  unfold withDefault
  infer_instance

instance gives_restPattern : Gives .firm (restPattern rec) := by
  unfold restPattern
  infer_instance

instance gives_shorthandPattern : Gives .firm shorthandPattern := gives_word_plain

instance gives_objectPattern : Gives .firm (objectPattern rec) := by
  unfold objectPattern
  infer_instance

instance gives_arrayPattern : Gives .firm (arrayPattern rec) := by
  unfold arrayPattern
  infer_instance

instance gives_destructuring : Gives .firm (destructuring rec) := by
  unfold destructuring
  infer_instance

instance gives_pattern : Gives .free (pattern rec) := by
  unfold pattern
  refine still_nextChar.after_still fun c => ?_
  split <;> infer_instance

instance gives_typedParameter_modifying (w : String) :
    Gives .free (typedParameter.modifying w) := by
  unfold typedParameter.modifying
  infer_instance

instance gives_typedParameter_accessible : Gives .firm typedParameter.accessible := by
  unfold typedParameter.accessible
  infer_instance

instance gives_typedParameter_overriding : Gives .firm typedParameter.overriding := by
  unfold typedParameter.overriding
  infer_instance

instance gives_typedParameter : Gives .free (typedParameter rec) := by
  unfold typedParameter
  infer_instance

instance gives_parameter : Gives .free (parameter rec) := by
  unfold parameter
  infer_instance

instance gives_parameters : Gives .firm (parameters rec) := by
  unfold parameters
  infer_instance

/-! ### Functions and classes -/

instance gives_asyncWord : Gives .free asyncWord := by
  unfold asyncWord
  infer_instance

instance gives_functionWith {kinds : Kind × Kind} [Is kinds.1.standing .named]
    [Is kinds.2.standing .named] [Gives .word x] : Gives .free (functionWith rec kinds x) := by
  unfold functionWith
  infer_instance

instance gives_functionExpression : Gives .free (functionExpression rec) := by
  unfold functionExpression
  infer_instance

instance gives_functionSignature : Gives .free (functionSignature rec) := by
  unfold functionSignature
  infer_instance

instance gives_functionDeclaration : Gives .free (functionDeclaration rec) := by
  unfold functionDeclaration
  infer_instance

instance still_labelledBrace : Still labelledBrace := by
  unfold labelledBrace
  infer_instance

instance gives_arrowBody (scope : Scope) : Gives .free (arrowBody rec scope) := by
  unfold arrowBody
  infer_instance

instance gives_arrow_identifierBeforeArrow : Gives .free arrow.identifierBeforeArrow := by
  unfold arrow.identifierBeforeArrow
  infer_instance

instance gives_arrow (scope : Scope) : Gives .firm (arrow rec scope) := by
  unfold arrow
  infer_instance

instance gives_staticGet : Gives .firm staticGet := by
  refine @gives_lexeme_mark _ _ _ ⟨fun {cs i j} h => ?_⟩
  obtain ⟨_, -, h⟩ := Option.bind_eq_some_iff.mp h
  obtain ⟨_, -, h⟩ := Option.bind_eq_some_iff.mp h
  obtain ⟨_, -, h⟩ := Option.bind_eq_some_iff.mp h
  obtain rfl := Option.some.inj h
  have := le_skipBlanks cs (i + 6)
  omega

instance gives_accessorWord (divided : Bool) : Gives .free (accessorWord divided) := by
  unfold accessorWord
  infer_instance

instance gives_method (divided : Bool) : Gives .firm (method rec divided) := by
  unfold method
  infer_instance

instance gives_typedMethod : Gives .firm (typedMethod rec) := by
  unfold typedMethod
  infer_instance

instance gives_staticBlock : Gives .firm (staticBlock rec) := by
  unfold staticBlock
  infer_instance

instance gives_plainField : Gives .free (plainField rec) := by
  unfold plainField
  infer_instance

instance gives_plainMember : Gives .free (plainMember rec) := by
  unfold plainMember
  infer_instance

instance gives_typedModifiers : Gives .free typedModifiers := by
  unfold typedModifiers
  infer_instance

instance gives_typedField {found : List Tree} [AllMeet .free found] :
    Extends .free (fullTexts found) (typedField rec found) := by
  unfold typedField
  infer_instance

instance gives_typedClassMethod : Gives .free (typedClassMethod rec) := by
  unfold typedClassMethod
  dsimp only
  infer_instance

instance gives_typedMember : Gives .free (typedMember rec) := by
  unfold typedMember
  infer_instance

instance gives_classBody : Gives .firm (classBody rec) := by
  unfold classBody
  infer_instance

instance gives_heritage : Gives .firm (heritage rec) := by
  unfold heritage
  infer_instance

instance gives_className : Gives .word className := by
  unfold className
  infer_instance

instance gives_classWith [Is k.standing .plain] [Gives .firm x] :
    Gives .firm (classWith rec k x) := by
  unfold classWith
  infer_instance

instance gives_classExpression : Gives .firm (classExpression rec) := by
  unfold classExpression
  infer_instance

instance gives_classDeclaration : Gives .firm (classDeclaration rec) := by
  unfold classDeclaration
  infer_instance

instance gives_abstractClass : Gives .firm (abstractClass rec) := by
  unfold abstractClass
  infer_instance

/-! ### Markup -/

instance gives_markupWord : Gives .word markupWord :=
  gives_lexeme_of_oneLine oneLine_markupWordEnd? rfl

instance gives_markupName : Gives .firm markupName := by
  unfold markupName
  infer_instance

instance gives_markupExpression : Gives .firm (markupExpression rec) := by
  unfold markupExpression
  infer_instance

instance gives_markupAttribute : Gives .firm (markupAttribute rec) := by
  unfold markupAttribute
  infer_instance

instance gives_markupText : Gives .firm markupText := by
  refine @gives_rawText_plain _ _ _ ⟨fun {cs i j} h => ?_⟩
  simp only at h
  split at h
  · obtain rfl := Option.some.inj h
    exact le_skipWhile _ _ _
  · cases h

instance gives_markupChild : Gives .free (markupChild rec) := by
  unfold markupChild
  infer_instance

instance gives_markupTag : Gives .free (markupTag rec) := by
  unfold markupTag
  infer_instance

instance gives_markupClosing : Gives .firm markupClosing := by
  unfold markupClosing
  infer_instance

instance gives_element : Gives .firm (element rec) := by
  unfold element
  infer_instance

end ArityCheck.Grammar
