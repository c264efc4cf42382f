import CodePrinter.Proofs.IntegerNumerals
import CodePrinter.Proofs.KeptMappings
import CodePrinter.Proofs.Python.Operations

/-! Reading undoes the printing of expressions.

Main statement: the text of an expression is read as the expression, except for what a text does
not show (`readExpr?_render`). -/
namespace CodePrinter.Python

/-- A number without its kind and, if it is zero, its sign. -/
def shownConstant : Constant → Constant
  | .number value _ => .number (if value.isZero then .zero false else value) .int32
  | value => value

mutual

/-- What of an expression its text shows: all but the locations and the kinds of its numbers. -/
def shown : Expr → Expr
  | .name id _ => .name id
  | .constant value _ => .constant (shownConstant value)
  | .call func args keywords _ => .call (shown func) (shownAll args) (shownKeywords keywords)
  | .attr value member _ => .attr (shown value) member
  | .subscript value slice _ => .subscript (shown value) (shown slice)
  | .binary left op right _ => .binary (shown left) op (shown right)
  | .unary op operand _ => .unary op (shown operand)
  | .boolean op values _ => .boolean op (shownAll values)
  | .compare left ops comparators _ => .compare (shown left) ops (shownAll comparators)
  | .conditional test body orElse _ => .conditional (shown test) (shown body) (shown orElse)
  | .lambda params body _ => .lambda (shownParams params) (shown body)
  | .tuple elements _ => .tuple (shownAll elements)
  | .list elements _ => .list (shownAll elements)
  | .set elements _ => .set (shownAll elements)
  | .dict keys values _ => .dict (shownAll keys) (shownAll values)
  | .named target value _ => .named (shown target) (shown value)
  | .starred value _ => .starred (shown value)
  | .emit template args _ => .emit template (shownAll args)
  | .typedLiteral type value _ => .typedLiteral type value
  | .typeTest type value _ => .typeTest type (shown value)
  | .yield value _ => .yield (shownOption value)
  | .yieldFrom value _ => .yieldFrom (shown value)
  | .formattedValue value formatSpec _ => .formattedValue (shown value) (shownOption formatSpec)
  | .unknown node _ => .unknown node

def shownAll : List Expr → List Expr
  | [] => []
  | e :: es => shown e :: shownAll es

def shownOption : Option Expr → Option Expr
  | none => none
  | some e => some (shown e)

def shownKeywords : List Keyword → List Keyword
  | [] => []
  | .mk name value :: ks => .mk name (shown value) :: shownKeywords ks

def shownParam : Param → Param
  | .mk name hint => .mk name (shownOption hint)

def shownParamList : List Param → List Param
  | [] => []
  | p :: ps => shownParam p :: shownParamList ps

def shownParams : Params → Params
  | .mk posOnly regular varArg defaults =>
    .mk (shownParamList posOnly) (shownParamList regular)
      (match varArg with
        | none => none
        | some p => some (shownParam p))
      (shownAll defaults)

end

/-- A constant that is written as one token. -/
def isReadableConstant : Constant → Bool
  | .number value kind => !kind.isFloat && value.toSafeInt?.any (0 ≤ ·)
  | .unknown _ => false
  | _ => true

def isPlainParam : Param → Bool
  | .mk name hint => isIdentifier name && hint.isNone

/-- Regular parameters without hints and defaults. -/
def isPlainParams : Params → Bool
  | .mk posOnly regular varArg defaults =>
    posOnly.isEmpty && varArg.isNone && defaults.isEmpty && regular.all isPlainParam

def isIdentifierName : Expr → Bool
  | .name id _ => isIdentifier id
  | _ => false

mutual

/-- An expression of Python that the reader knows. -/
def isReadable : Expr → Bool
  | .name id _ => isIdentifier id
  | .constant value _ => isReadableConstant value
  | .call func args keywords _ => isReadable func && areReadable args && areKeywords keywords
  | .attr value member _ => isReadable value && isIdentifier member
  | .subscript value slice _ => isReadable value && isReadable slice
  | .binary left op right _ => isReadable left && op ∈ BinaryOp.all && isReadable right
  | .unary op operand _ => op ∈ UnaryOp.all && isReadable operand
  | .boolean op values _ => op ∈ BoolOp.all && 2 ≤ values.length && areReadable values
  | .compare left ops comparators _ =>
    isReadable left && ops.all (· ∈ CompareOp.all) && !ops.isEmpty &&
      ops.length = comparators.length && areReadable comparators
  | .conditional test body orElse _ => isReadable test && isReadable body && isReadable orElse
  | .lambda params body _ => isPlainParams params && isReadable body
  | .tuple elements _ => areReadable elements
  | .list elements _ => areReadable elements
  | .set elements _ => !elements.isEmpty && areReadable elements
  | .dict keys values _ =>
    keys.length = values.length && areReadable keys && areReadable values
  | .named target value _ => isIdentifierName target && isReadable value
  | _ => false

def areReadable : List Expr → Bool
  | [] => true
  | e :: es => isReadable e && areReadable es

def areKeywords : List Keyword → Bool
  | [] => true
  | .mk name value :: ks => isIdentifier name && isReadable value && areKeywords ks

end

theorem shownAll_eq_map (es : List Expr) : shownAll es = es.map shown := by
  induction es with
  | nil => rfl
  | cons e es ih => simp [shownAll, ih]

/-- A number that is written as one token is a natural number of an integer kind. -/
theorem exists_nat_of_isReadableConstant {value : Double} {kind : NumberKind}
    (h : isReadableConstant (.number value kind) = true) :
    ∃ n : Nat, value.toSafeInt? = some (n : Int) ∧
      Constant.text (.number value kind) = .ok value.numeral := by
  simp only [isReadableConstant, Bool.and_eq_true, Bool.not_eq_true', Option.any_eq_true,
    decide_eq_true_eq] at h
  obtain ⟨hkind, m, hm, hpos⟩ := h
  obtain ⟨n, rfl⟩ := Int.eq_ofNat_of_zero_le hpos
  exact ⟨n, hm, by simp [Constant.text, Constant.numberText, hkind]⟩

variable {set : Settings}

theorem readsBack_constant (hset : Plain set) {value : Constant} (loc : Option Location)
    (h : isReadableConstant value = true) :
    ReadsBack set (.constant value loc) (.constant (shownConstant value)) := by
  cases value with
  | bool value =>
    refine .constant hset loc rfl ?_
    intro d
    have hlays := laysPrimary_word hset d
      (show isWord (if value then "True" else "False") = true by cases value <;> decide)
    exact ⟨_, hlays.lays, parses_bool value, fun _ => hlays⟩
  | string value =>
    refine .constant hset loc rfl ?_
    intro d
    have hlays := laysPrimary_string hset d value
    exact ⟨_, hlays.lays, parses_string value, fun _ => hlays⟩
  | none =>
    refine .constant hset loc rfl ?_
    intro d
    have hlays := laysPrimary_word hset d (show isWord "None" = true by decide)
    exact ⟨_, hlays.lays, parses_none, fun _ => hlays⟩
  | number value kind =>
    obtain ⟨n, hn, htext⟩ := exists_nat_of_isReadableConstant h
    refine .constant hset loc htext ?_
    intro d
    refine ⟨_, lays_int hset d (Double.toList_numeral hn), ?_, nofun⟩
    have hparses := parses_int n
    rwa [Double.ofInt_natCast hn] at hparses
  | unknown _ => cases h

/-- Plain parameters are the names that a lambda is written with. -/
theorem plainParams_of_isPlainParams {params : Params} (names : RuntimeNames)
    (h : isPlainParams params = true) :
    ∃ ids : List String, (∀ id ∈ ids, isIdentifier id = true) ∧
      params.fragment names = plainParams ids ∧
      shownParams params = .mk [] (ids.map (.mk · none)) none [] := by
  obtain ⟨posOnly, regular, varArg, defaults⟩ := params
  simp only [isPlainParams, Bool.and_eq_true, List.isEmpty_iff, Option.isNone_iff_eq_none] at h
  obtain ⟨⟨⟨rfl, rfl⟩, rfl⟩, hregular⟩ := h
  have hids : ∃ ids : List String, (∀ id ∈ ids, isIdentifier id = true) ∧
      regular = ids.map (.mk · none) := by
    induction regular with
    | nil => exact ⟨[], by simp, rfl⟩
    | cons p ps ih =>
      obtain ⟨id, hint⟩ := p
      simp only [List.all_cons, isPlainParam, Bool.and_eq_true, Option.isNone_iff_eq_none]
        at hregular
      obtain ⟨⟨hid, rfl⟩, hps⟩ := hregular
      obtain ⟨ids, hids, rfl⟩ := ih hps
      exact ⟨id :: ids, by simpa [hid] using hids, rfl⟩
  obtain ⟨ids, hids, rfl⟩ := hids
  refine ⟨ids, hids, ?_, ?_⟩
  · rw [Params.fragment, paramFragments_eq_map, paramFragments_eq_map]
    simp [plainParams, optionParamFragment, fragments, Param.fragment, optionFragment,
      Function.comp_def]
  · have hshown : shownParamList (ids.map (.mk · none)) = ids.map (.mk · none) := by
      clear hids hregular
      induction ids with
      | nil => rfl
      | cons id ids ih => simp [shownParamList, shownParam, shownOption, ih]
    simp [shownParams, shownParamList, shownAll, hshown]

mutual

theorem readsBack (hset : Plain set) :
    (e : Expr) → isReadable e = true → ReadsBack set (e.fragment set.names) (shown e)
  | .name id loc, h => by
    rw [Expr.fragment, shown]
    exact .name hset loc h
  | .constant value loc, h => by
    rw [Expr.fragment, shown]
    exact readsBack_constant hset loc h
  | .call func args keywords loc, h => by
    simp only [isReadable, Bool.and_eq_true] at h
    obtain ⟨⟨hfunc, hargs⟩, hkeywords⟩ := h
    obtain ⟨named, hshown, hnamed⟩ := readsBack_keywords hset keywords hkeywords
    rw [Expr.fragment, shown, hshown]
    exact .call hset loc (readsBack hset func hfunc) (readsBack_all hset args hargs) hnamed
  | .attr value member loc, h => by
    simp only [isReadable, Bool.and_eq_true] at h
    rw [Expr.fragment, shown]
    exact .attr hset loc (readsBack hset value h.1) h.2
  | .subscript value slice loc, h => by
    simp only [isReadable, Bool.and_eq_true] at h
    rw [Expr.fragment, shown]
    exact .subscript hset loc (readsBack hset value h.1) (readsBack hset slice h.2)
  | .binary left op right loc, h => by
    simp only [isReadable, Bool.and_eq_true, decide_eq_true_eq] at h
    rw [Expr.fragment, shown]
    exact .binary hset loc (readsBack hset left h.1.1) (readsBack hset right h.2) h.1.2
  | .unary op operand loc, h => by
    simp only [isReadable, Bool.and_eq_true, decide_eq_true_eq] at h
    rw [Expr.fragment, shown]
    exact .unary hset loc (readsBack hset operand h.2) h.1
  | .boolean op values loc, h => by
    simp only [isReadable, Bool.and_eq_true, decide_eq_true_eq] at h
    obtain ⟨⟨hop, hlength⟩, hvalues⟩ := h
    rw [Expr.fragment, shown]
    refine .boolean hset loc (readsBack_all hset values hvalues) hop ?_
    rwa [shownAll_eq_map, List.length_map]
  | .compare left ops comparators loc, h => by
    simp only [isReadable, Bool.and_eq_true, decide_eq_true_eq, List.all_eq_true,
      Bool.not_eq_true', List.isEmpty_eq_false_iff] at h
    obtain ⟨⟨⟨⟨hleft, hops⟩, hne⟩, hlength⟩, hmore⟩ := h
    rw [Expr.fragment, shown]
    refine .compare hset loc (readsBack hset left hleft) (readsBack_all hset comparators hmore)
      hops hne ?_
    rwa [shownAll_eq_map, List.length_map]
  | .conditional test body orElse loc, h => by
    simp only [isReadable, Bool.and_eq_true] at h
    rw [Expr.fragment, shown]
    exact .conditional hset loc (readsBack hset test h.1.1) (readsBack hset body h.1.2)
      (readsBack hset orElse h.2)
  | .lambda params body loc, h => by
    simp only [isReadable, Bool.and_eq_true] at h
    obtain ⟨ids, hids, hfragment, hshown⟩ := plainParams_of_isPlainParams set.names h.1
    rw [Expr.fragment, shown, hfragment, hshown]
    exact .lambda hset loc hids (readsBack hset body h.2)
  | .tuple elements loc, h => by
    rw [Expr.fragment, shown]
    exact .tuple hset loc (readsBack_all hset elements h)
  | .list elements loc, h => by
    rw [Expr.fragment, shown]
    exact .list hset loc (readsBack_all hset elements h)
  | .set elements loc, h => by
    simp only [isReadable, Bool.and_eq_true, Bool.not_eq_true', List.isEmpty_eq_false_iff] at h
    rw [Expr.fragment, shown]
    refine .nonemptySet hset loc (readsBack_all hset elements h.2) ?_
    rw [shownAll_eq_map, Ne, List.map_eq_nil_iff]
    exact h.1
  | .dict keys values loc, h => by
    simp only [isReadable, Bool.and_eq_true, decide_eq_true_eq] at h
    obtain ⟨⟨hlength, hkeys⟩, hvalues⟩ := h
    rw [Expr.fragment, shown]
    refine .dict hset loc (readsBack_all hset keys hkeys) (readsBack_all hset values hvalues) ?_
    rwa [shownAll_eq_map, shownAll_eq_map, List.length_map, List.length_map]
  | .named target value loc, h => by
    simp only [isReadable, Bool.and_eq_true] at h
    cases target with
    | name id place =>
      rw [Expr.fragment, shown, Expr.fragment, shown]
      exact .named hset loc place h.1 (readsBack hset value h.2)
    | _ => cases h.1

theorem readsBack_all (hset : Plain set) :
    (es : List Expr) → areReadable es = true →
      List.Forall₂ (ReadsBack set) (fragments set.names es) (shownAll es)
  | [], _ => by
    rw [fragments, shownAll]
    exact .nil
  | e :: es, h => by
    simp only [areReadable, Bool.and_eq_true] at h
    rw [fragments, shownAll]
    exact .cons (readsBack hset e h.1) (readsBack_all hset es h.2)

theorem readsBack_keywords (hset : Plain set) :
    (ks : List Keyword) → areKeywords ks = true →
      ∃ named : List (String × Expr), shownKeywords ks = named.map (fun x => .mk x.1 x.2) ∧
        List.Forall₂ (fun k x => k.1 = x.1 ∧ isIdentifier x.1 = true ∧ ReadsBack set k.2 x.2)
          (keywordFragments set.names ks) named
  | [], _ => ⟨[], by rw [shownKeywords]; rfl, by rw [keywordFragments]; exact .nil⟩
  | .mk name value :: ks, h => by
    simp only [areKeywords, Bool.and_eq_true] at h
    obtain ⟨named, hshown, hnamed⟩ := readsBack_keywords hset ks h.2
    refine ⟨(name, shown value) :: named, ?_, ?_⟩
    · rw [shownKeywords, hshown]
      rfl
    · rw [keywordFragments, Keyword.fragment]
      exact .cons ⟨rfl, h.1.1, readsBack hset value h.1.2⟩ hnamed

end

theorem readExpr?_of_parses {text : String} {ts : List Token} {e : Expr}
    (ht : tokens? text = some ts) (h : Parses .expression ts e) : readExpr? text = some e := by
  have hread := h.reads (15 * ts.length) [] (Nat.le_refl _) (by simp [Stops])
  rw [List.append_nil] at hread
  simp [readExpr?, ht, hread]

theorem BlankIndent.plain (h : BlankIndent set) : Plain set.withoutChecks := by
  refine ⟨?_, set.unchecked_withoutChecks⟩
  unfold BlankIndent
  rwa [set.indent_withoutChecks]

/-- Reading the text of an expression gives back what the text shows of it, whatever the
indentation. -/
theorem readExpr?_render (hindent : BlankIndent set) {e : Expr} (he : isReadable e = true)
    (hkeeps : Pass.Keeps set {} (e.located set.names)) :
    (e.render set).failure = none ∧
      readExpr? (e.render set).pass.page.pending = some (shown e) := by
  obtain ⟨ts, ⟨last, hwrites, -⟩, hparses⟩ := (readsBack hindent.plain e he).bare 0
  obtain ⟨q, c, cs, hperform, hpending, -, hspells⟩ := hwrites {}
  have hrender : e.render set.withoutChecks = { pass := q } := hperform
  have htext : q.page.pending = String.ofList (c :: cs) := by simpa using hpending
  rw [Expr.render_withoutChecks hkeeps, hrender]
  refine ⟨rfl, ?_⟩
  rw [htext]
  exact readExpr?_of_parses (tokens?_of_spells hspells) hparses

/-- A conditional whose body is a lambda, with `is` before a `not`, and a number that an attribute
is taken of, at a place that a map can hold. -/
theorem readExpr?_render_conditional :
    let set : Settings := { maps := .checked "main.fs" }
    let test : Expr := .compare (.name "a") [.is, .lt] [.unary .not (.name "b"), .name "c"]
    let body : Expr := .lambda (.mk [] [.mk "x" none] none [])
      (.attr (.int (.ofInt 12)) "real" (some (.span 3 4)))
    let orElse : Expr := .dict [.lambda (.mk [] [] none []) (.tuple [.string "\n"])]
      [.named (.name "y") (.call (.name "f") [.name "x"] [.mk "k" (.noneValue)])]
    isReadable (.conditional test body orElse) = true ∧
      ((Expr.conditional test body orElse).render set).failure = none ∧
      readExpr? ((Expr.conditional test body orElse).render set).pass.page.pending =
        some (shown (.conditional test body orElse)) := by
  intro set test body orElse
  have he : isReadable (.conditional test body orElse) = true := by
    dsimp only [test, body, orElse]
    decide +kernel
  have hkeeps : Pass.Keeps set {} ((Expr.conditional test body orElse).located set.names) := by
    intro source hs
    cases hs
    exact ⟨by decide, Template.Cache.sound_empty, by decide +kernel⟩
  exact ⟨he, readExpr?_render (by decide) he hkeeps⟩

end CodePrinter.Python
