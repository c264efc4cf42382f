import CodePrinter.Proofs.Python.Lines
import CodePrinter.Proofs.Python.RoundTrip

/-! The lines of statements whose expressions are names, and what they are read as.

Main statements: what is printed between commas is read as a list (`says_parenthesized`), and the
lines of functions, classes, handlers and assignments are read as what they were printed from
(`says_function`, `says_class`, `says_handler`, `says_assignment`). -/
namespace CodePrinter.Python

variable {set : Settings} {is : List Instr} {items : List (List Instr)} {ps : List Piece}
  {e : Expr} {es : List Expr} {α : Type} {read : List Token → Option α} {as : List α}
  {tss : List (List Token)} {id name text : String} {ids : List String}

/-! Names. -/

theorem name?_word (h : isIdentifier id = true) : name? [.word id] = some (.name id) := by
  simp [name?, identifier?, h]

theorem word_ne_keyword (h : isIdentifier id = true) (hk : text ∈ keywords) : id ≠ text := by
  rintro rfl
  exact notMem_keywords_of_isIdentifier h hk

/-! Lists. -/

theorem mapM_of_forall₂ (h : List.Forall₂ (fun ts a => read ts = some a) tss as) :
    tss.mapM read = some as := by
  induction h with
  | nil => rfl
  | cons hread _ ih => simp [List.mapM_cons, hread, ih]

theorem notMem_intercalate {β : Type} {t : β} {us : List β} {tss : List (List β)} (hus : t ∉ us)
    (h : ∀ ts ∈ tss, t ∉ ts) : t ∉ us.intercalate tss := by
  induction tss with
  | nil => simp
  | cons ts tss ih =>
    have hfirst := h ts (by simp)
    have hmore := ih fun vs hvs => h vs (List.mem_cons_of_mem ts hvs)
    cases tss with
    | nil => simpa using hfirst
    | cons vs tss =>
      rw [List.intercalate_cons_cons]
      simp only [List.mem_append, not_or]
      exact ⟨⟨hfirst, hus⟩, hmore⟩

theorem separated?_intercalate {separator : String} (hno : ∀ ts ∈ tss, .symbol separator ∉ ts)
    (h : List.Forall₂ (fun ts a => read ts = some a) tss as) (hne : tss ≠ []) :
    separated? separator read ([.symbol separator].intercalate tss) = some as := by
  rw [separated?, List.splitOn_intercalate _ hno hne]
  exact mapM_of_forall₂ h

theorem commaList?_intercalate (hno : ∀ ts ∈ tss, ts ≠ [] ∧ .symbol "," ∉ ts)
    (h : List.Forall₂ (fun ts a => read ts = some a) tss as) :
    commaList? read ([.symbol ","].intercalate tss) = some as := by
  cases h with
  | nil => rfl
  | @cons ts a tss as hread hmore =>
    have hfirst := (hno ts (by simp)).1
    have hne : [Token.symbol ","].intercalate (ts :: tss) ≠ [] := by
      cases tss with
      | nil => simpa using hfirst
      | cons us tss => simp [List.intercalate_cons_cons]
    have hlist := separated?_intercalate (fun us hus => (hno us hus).2) (.cons hread hmore)
      (by simp)
    unfold commaList?
    split
    · rename_i hnil
      exact absurd hnil hne
    · exact hlist

/-- Instructions print an item of a list in parentheses, and it is read. -/
def SaysItem (set : Settings) (read : List Token → Option α) (is : List Instr) (a : α) : Prop :=
  ∃ ps, Says set is ps ∧ wording ps ≠ [] ∧ .symbol "," ∉ wording ps ∧ .symbol ")" ∉ wording ps ∧
    read (wording ps) = some a

theorem says_parenthesized (h : List.Forall₂ (SaysItem set read) items as) :
    ∃ ps, Says set (parenthesized (commaSeparated items))
        (Piece.symbol "(" :: ps ++ [Piece.symbol ")"]) ∧
      .symbol ")" ∉ wording ps ∧ commaList? read (wording ps) = some as := by
  obtain ⟨pss, hspoken, hno, hclose, hread⟩ : ∃ pss, List.Forall₂ (Says set) items pss ∧
      (∀ ts ∈ pss.map wording, ts ≠ [] ∧ .symbol "," ∉ ts) ∧
      (∀ ts ∈ pss.map wording, .symbol ")" ∉ ts) ∧
      List.Forall₂ (fun ts a => read ts = some a) (pss.map wording) as := by
    induction h with
    | nil => exact ⟨[], .nil, by simp, by simp, .nil⟩
    | cons hitem _ ih =>
      obtain ⟨ps, hspoken, hne, hcomma, hclose, hread⟩ := hitem
      obtain ⟨pss, hmore, hno, hcloses, hreads⟩ := ih
      refine ⟨ps :: pss, .cons hspoken hmore, ?_, ?_, .cons hread hreads⟩
      · rw [List.map_cons, List.forall_mem_cons]
        exact ⟨⟨hne, hcomma⟩, hno⟩
      · rw [List.map_cons, List.forall_mem_cons]
        exact ⟨hclose, hcloses⟩
  have hlist := commaList?_intercalate hno hread
  have hopen : Says set [.text "("] [.symbol "("] := says_text set (by decide)
  have hend : Says set [.text ")"] [.symbol ")"] := says_text set (by decide)
  refine ⟨commaPieces pss, ?_, ?_, by rwa [wording_commaPieces]⟩
  · by_cases hnil : items = []
    · subst hnil
      cases hspoken
      exact hopen.append hend (by simp)
    · exact (hopen.append (says_commaSeparated hnil hspoken) (by simp)).append hend (by simp)
  · rw [wording_commaPieces]
    exact notMem_intercalate (by simp) hclose

/-! Parameters. -/

def isReadableParam : Param → Bool
  | .mk name hint => isIdentifier name && hint.all isIdentifierName

/-- Parameters without defaults. -/
def isReadableParams : Params → Bool
  | .mk posOnly regular varArg defaults =>
    posOnly.all isReadableParam && regular.all isReadableParam && varArg.all isReadableParam &&
      defaults.isEmpty

/-- The items of a parameter list. -/
def paramItems : Params → List ParamItem
  | .mk posOnly regular varArg _ =>
    posOnly.map .plain ++ (if posOnly.isEmpty then [] else [.slash]) ++ regular.map .plain ++
      varArg.toList.map .star

theorem readRegular_items (regular : List Param) (varArg : Option Param) :
    readRegular (regular.map .plain ++ varArg.toList.map .star) = some (regular, varArg) := by
  induction regular with
  | nil => cases varArg <;> rfl
  | cons p regular ih =>
    rw [List.map_cons, List.cons_append, readRegular, ih]
    rfl

theorem readPositional_items (posOnly : List Param) (hne : posOnly ≠ []) (items : List ParamItem) :
    readPositional (posOnly.map .plain ++ .slash :: items) = some (posOnly, items) := by
  induction posOnly with
  | nil => exact absurd rfl hne
  | cons p posOnly ih =>
    cases posOnly with
    | nil => rfl
    | cons q posOnly =>
      rw [List.map_cons, List.cons_append, readPositional, ih (by simp)]
      · rfl
      · simp

/-- Nothing is positional without the sign for it. -/
theorem readPositional_regular (regular : List Param) (varArg : Option Param) :
    readPositional (regular.map .plain ++ varArg.toList.map .star) = none := by
  induction regular with
  | nil => cases varArg <;> rfl
  | cons p regular ih =>
    rw [List.map_cons, List.cons_append, readPositional, ih]
    · rfl
    · cases regular <;> cases varArg <;> simp

theorem readParams_paramItems (posOnly regular : List Param) (varArg : Option Param) :
    readParams (paramItems (.mk posOnly regular varArg [])) =
      some (.mk posOnly regular varArg []) := by
  by_cases hnil : posOnly = []
  · subst hnil
    simp [readParams, paramItems, readPositional_regular, readRegular_items]
  · simp [readParams, paramItems, hnil, readPositional_items, readRegular_items]

theorem shownParams_eq (posOnly regular : List Param) (varArg : Option Param)
    (defaults : List Expr) :
    shownParams (.mk posOnly regular varArg defaults) = .mk (shownParamList posOnly)
      (shownParamList regular) (varArg.map shownParam) (shownAll defaults) := by
  cases varArg <;> simp [shownParams]

/-! Lines. -/

/-- An expression that may be missing, after a text. -/
def optionalPart (set : Settings) (lead : String) : Option Expr → List Instr
  | none => []
  | some e => .text lead :: (e.fragment set.names).bare

/-- The line of a function. -/
def functionLine (set : Settings) (name : String) (params : Params) (returns : Option Expr) :
    List Instr :=
  [Instr.text "def ", Instr.text name] ++ parenthesized ((params.fragment set.names).print true) ++
    optionalPart set " -> " returns ++ [Instr.text ":"]

/-- The line of a class. -/
def classLine (set : Settings) (name : String) (bases : List Expr) : List Instr :=
  let parens : List Instr := if bases.isEmpty then []
    else parenthesized (commaSeparated ((fragments set.names bases).map (·.bare)))
  [Instr.text "class ", Instr.text name] ++ parens ++ [Instr.text ":"]

/-- The name that an exception gets. -/
def asPart : Option String → List Instr
  | none => []
  | some name => [.text " as ", .text name]

/-- The line of an exception handler. -/
def handlerLine (set : Settings) (type : Option Expr) (name : Option String) : List Instr :=
  [Instr.text "except"] ++ optionalPart set " " type ++ asPart name ++ [Instr.text ":"]

/-- Names with signs of assignment between them. -/
def assignPieces (ids : List String) (value : String) : List Piece :=
  ids.flatMap (fun id => [Piece.word id, .space, .symbol "=", .space]) ++ [Piece.word value]

theorem wording_assignPieces (ids : List String) (value : String) :
    wording (assignPieces ids value) =
      [.symbol "="].intercalate ((ids ++ [value]).map fun id => [.word id]) := by
  induction ids with
  | nil => simp [assignPieces]
  | cons id ids ih =>
    have hcons : wording (assignPieces (id :: ids) value) =
        [Token.word id] ++ [Token.symbol "="] ++ wording (assignPieces ids value) := by
      simp [assignPieces]
    rw [hcons, ih]
    cases ids <;> simp [List.intercalate_cons_cons]

theorem head_assignPieces (hids : ∀ id ∈ ids, isIdentifier id = true)
    (hname : isIdentifier name = true) :
    ∃ id ps, assignPieces ids name = .word id :: ps ∧ isIdentifier id = true := by
  cases ids with
  | nil => exact ⟨name, [], rfl, hname⟩
  | cons id ids => exact ⟨id, _, rfl, hids id (by simp)⟩

theorem readSimple_assignPieces (hids : ∀ id ∈ ids, isIdentifier id = true)
    (hname : isIdentifier name = true) :
    readSimple (wording (assignPieces ids name)) = some (.statement
      (if ids = [] then .expr (.name name) else .assign (ids.map (.name ·)) (.name name))) := by
  have hread : separated? "=" name? (wording (assignPieces ids name)) =
      some ((ids ++ [name]).map (.name ·)) := by
    rw [wording_assignPieces]
    refine separated?_intercalate ?_ ?_ (by simp)
    · intro ts hts
      obtain ⟨id, -, rfl⟩ := List.mem_map.mp hts
      simp
    · rw [List.forall₂_map_left_iff, List.forall₂_map_right_iff, List.forall₂_same]
      intro id hid
      rcases List.mem_append.mp hid with hid | hid
      · exact name?_word (hids id hid)
      · rw [List.mem_singleton.mp hid]
        exact name?_word hname
  have hassign : readAssignment (wording (assignPieces ids name)) = some
      (if ids = [] then .expr (.name name) else .assign (ids.map (.name ·)) (.name name)) := by
    rw [readAssignment, hread, Option.bind_some, List.map_append, List.map_singleton,
      List.getLast?_concat, List.dropLast_concat]
    cases ids <;> rfl
  obtain ⟨id, ps, hhead, hid⟩ := head_assignPieces hids hname
  have hsimple : readSimple (wording (.word id :: ps)) =
      (if id ∈ keywords then readKeyword id (wording ps)
        else readAssignment (wording (.word id :: ps))).map .statement := rfl
  rw [hhead, hsimple, if_neg (notMem_keywords_of_isIdentifier hid), ← hhead, hassign]
  rfl

/-- Names with commas between them, after a keyword. -/
theorem says_nameList {lead keyword : String}
    (hlead : Says set [.text lead] [.word keyword, .space])
    (hids : ∀ id ∈ ids, isIdentifier id = true) (hne : ids ≠ []) :
    ∃ ps, Says set (nameList lead ids) (.word keyword :: ps) ∧
      separated? "," identifier? (wording ps) = some ids := by
  have hphrase : Phrase (commaPieces (ids.map fun id => [.word id])) := by
    apply phrase_commaPieces
    intro ps hps
    obtain ⟨id, hid, rfl⟩ := List.mem_map.mp hps
    exact (says_word set (isWord_of_isIdentifier (hids id hid))).phrase
  have htext : spell (commaPieces (ids.map fun id => [.word id])) = ", ".intercalate ids := by
    rw [spell_commaPieces, List.map_map]
    congr 1
    exact List.map_id'' (fun id => by simp [spell, Piece.text]) ids
  have hspoken := hlead.append (says_text set ⟨htext, hphrase⟩) (by simp)
  refine ⟨.space :: commaPieces (ids.map fun id => [.word id]),
    by simpa [nameList, hne] using hspoken, ?_⟩
  have hwording : wording (.space :: commaPieces (ids.map fun id => [.word id])) =
      [.symbol ","].intercalate (ids.map fun id => [.word id]) := by
    have hspace := wording_append [.space] (commaPieces (ids.map fun id => [.word id]))
    rw [wording_commaPieces, List.map_map] at hspace
    exact hspace
  rw [hwording]
  refine separated?_intercalate ?_ ?_ (by simpa using hne)
  · intro ts hts
    obtain ⟨id, -, rfl⟩ := List.mem_map.mp hts
    simp
  · rw [List.forall₂_map_left_iff]
    have hread : ∀ id ∈ ids, identifier? [.word id] = some id := by
      intro id hid
      simp [identifier?, hids id hid]
    exact List.forall₂_same.mpr hread

section Says

variable (hm : set.Unchecked)

include hm

theorem says_name (h : isIdentifierName e = true) :
    ∃ id, isIdentifier id = true ∧ shown e = .name id ∧
      Says set (e.fragment set.names).bare [.word id] := by
  cases e with
  | name id loc =>
    refine ⟨id, h, rfl, ?_⟩
    exact (says_word set (isWord_of_isIdentifier h)).after_mark hm loc
  | _ => cases h

theorem saysItem_names (h : ∀ e ∈ es, isIdentifierName e = true) :
    List.Forall₂ (SaysItem set name?) ((fragments set.names es).map (·.bare)) (shownAll es) := by
  induction es with
  | nil => exact .nil
  | cons e es ih =>
    obtain ⟨id, hid, hshown, hspoken⟩ := says_name hm (h e (by simp))
    refine .cons ⟨[.word id], hspoken, by simp, by simp,
      by simp, ?_⟩ (ih fun e' he => h e' (List.mem_cons_of_mem e he))
    rw [hshown]
    exact name?_word hid

theorem says_param {p : Param} (h : isReadableParam p = true) :
    ∃ name ps, Says set ((p.fragment set.names).print true) (.word name :: ps) ∧
      .symbol "," ∉ wording (.word name :: ps) ∧ .symbol ")" ∉ wording (.word name :: ps) ∧
      readParam (wording (.word name :: ps)) = some (shownParam p) := by
  obtain ⟨name, hint⟩ := p
  simp only [isReadableParam, Bool.and_eq_true] at h
  obtain ⟨hname, hhint⟩ := h
  have hspoken := says_word set (isWord_of_isIdentifier hname)
  cases hint with
  | none =>
    refine ⟨name, [], ?_, by simp, by simp, ?_⟩
    · simpa [Param.fragment, optionFragment, ParamFragment.print] using hspoken
    · simp [readParam, identifier?, hname, shownParam, shownOption]
  | some hint =>
    obtain ⟨id, hid, hshown, hhint⟩ := says_name hm hhint
    have hsign : Says set [.text ": "] [.symbol ":", .space] := says_text set (by decide)
    have hall := (hspoken.append hsign (by simp)).append hhint (by simp)
    refine ⟨name, [.symbol ":", .space, .word id], ?_, by simp,
      by simp, ?_⟩
    · simpa [Param.fragment, optionFragment, ParamFragment.print] using hall
    · simp [readParam, identifier?, hname, name?_word hid, shownParam,
        shownOption, hshown]

theorem saysItem_param {p : Param} (h : isReadableParam p = true) :
    SaysItem set readParamItem ((p.fragment set.names).print true) (.plain (shownParam p)) := by
  obtain ⟨name, ps, hspoken, hcomma, hclose, hread⟩ := says_param hm h
  refine ⟨_, hspoken, by simp, hcomma, hclose, ?_⟩
  have hplain : readParamItem (wording (.word name :: ps)) =
      (readParam (wording (.word name :: ps))).map .plain := rfl
  rw [hplain, hread]
  rfl

theorem saysItem_star {p : Param} (h : isReadableParam p = true) :
    SaysItem set readParamItem (.text "*" :: (p.fragment set.names).print true)
      (.star (shownParam p)) := by
  obtain ⟨name, ps, hspoken, hcomma, hclose, hread⟩ := says_param hm h
  have hstar : Says set [.text "*"] [.symbol "*"] := says_text set (by decide)
  refine ⟨_, hstar.append hspoken (by simp [Piece.apart]), by simp, ?_, ?_, ?_⟩
  · simpa using hcomma
  · simpa using hclose
  · have hrest : readParamItem (wording ([.symbol "*"] ++ .word name :: ps)) =
        (readParam (wording (.word name :: ps))).map .star := rfl
    rw [hrest, hread]
    rfl

theorem saysItem_paramList {params : List Param} (h : ∀ p ∈ params, isReadableParam p = true) :
    List.Forall₂ (SaysItem set readParamItem)
      ((paramFragments set.names params).map (·.print true))
      ((shownParamList params).map .plain) := by
  induction params with
  | nil => exact .nil
  | cons p params ih =>
    exact .cons (saysItem_param hm (h p (by simp)))
      (ih fun q hq => h q (List.mem_cons_of_mem p hq))

theorem saysItem_params {params : Params} (h : isReadableParams params = true) :
    List.Forall₂ (SaysItem set readParamItem) ((params.fragment set.names).items true)
      (paramItems (shownParams params)) := by
  obtain ⟨posOnly, regular, varArg, defaults⟩ := params
  simp only [isReadableParams, Bool.and_eq_true, List.all_eq_true, List.isEmpty_iff] at h
  obtain ⟨⟨⟨hpos, hreg⟩, hvar⟩, rfl⟩ := h
  have hslash : List.Forall₂ (SaysItem set readParamItem)
      (if (paramFragments set.names posOnly).isEmpty then [] else [[.text "/"]])
      (if (shownParamList posOnly).isEmpty then [] else [.slash]) := by
    cases posOnly with
    | nil => exact .nil
    | cons p posOnly =>
      have hspoken : Says set [.text "/"] [.symbol "/"] := says_text set (by decide)
      exact .cons ⟨_, hspoken, by decide, by decide, by decide, rfl⟩ .nil
  have hstar : List.Forall₂ (SaysItem set readParamItem)
      ((optionParamFragment set.names varArg).toList.map fun q => .text "*" :: q.print true)
      ((varArg.map shownParam).toList.map .star) := by
    cases varArg with
    | none => exact .nil
    | some p => exact .cons (saysItem_star hm hvar) .nil
  rw [items_of_no_defaults rfl, shownParams_eq]
  exact List.rel_append (List.rel_append (List.rel_append (saysItem_paramList hm hpos) hslash)
    (saysItem_paramList hm hreg)) hstar

theorem says_params {params : Params} (h : isReadableParams params = true) :
    ∃ ps, Says set (parenthesized ((params.fragment set.names).print true))
        (Piece.symbol "(" :: ps ++ [Piece.symbol ")"]) ∧ .symbol ")" ∉ wording ps ∧
      (commaList? readParamItem (wording ps)).bind readParams = some (shownParams params) := by
  obtain ⟨ps, hspoken, hclose, hread⟩ := says_parenthesized (saysItem_params hm h)
  refine ⟨ps, hspoken, hclose, ?_⟩
  obtain ⟨posOnly, regular, varArg, defaults⟩ := params
  simp only [isReadableParams, Bool.and_eq_true, List.isEmpty_iff] at h
  rw [hread, shownParams_eq, h.2, Option.bind_some, shownAll, readParams_paramItems]

theorem says_function {params : Params} {returns : Option Expr} (hname : isIdentifier name = true)
    (hparams : isReadableParams params = true) (hreturns : returns.all isIdentifierName = true) :
    ∃ ps, Says set (functionLine set name params returns)
        (Piece.word "def" :: ps ++ [Piece.symbol ":"]) ∧
      ∀ body, readHeader body (wording (.word "def" :: ps)) = some (.statement
        (.functionDef name (shownParams params) body [] (shownOption returns))) := by
  have hdef : Says set [.text "def "] [.word "def", .space] := says_text set (by decide)
  have hword := says_word set (isWord_of_isIdentifier hname)
  obtain ⟨qs, hqs, hclose, hread⟩ := says_params hm hparams
  have hhead := (hdef.append hword (by simp)).append hqs (by simp [Piece.apart])
  cases returns with
  | none =>
    refine ⟨.space :: .word name :: .symbol "(" :: (qs ++ [Piece.symbol ")"]), ?_, ?_⟩
    · simpa [functionLine, optionalPart] using hhead.colon
    · intro body
      have hwording : wording (.word "def" :: .space :: .word name :: .symbol "(" ::
          (qs ++ [Piece.symbol ")"])) =
          .word "def" :: .word name :: .symbol "(" :: (wording qs ++ [Token.symbol ")"]) := by
        simp
      rw [hwording]
      have hsplit := List.splitOn_append_cons_self_of_not_mem hclose []
      simp [readHeader, readFunction, identifier?, hname, hsplit, hread, shownOption]
  | some e =>
    obtain ⟨id, hid, hshown, hspoken⟩ := says_name hm hreturns
    have harrow : Says set [.text " -> "] [.space, .symbol "->", .space] :=
      says_text set (by decide)
    have hreturns := (hhead.append (harrow.append hspoken (by simp)) (by simp)).colon
    refine ⟨.space :: .word name :: .symbol "(" ::
      (qs ++ [Piece.symbol ")", Piece.space, Piece.symbol "->", Piece.space, Piece.word id]),
      ?_, ?_⟩
    · simpa [functionLine, optionalPart] using hreturns
    · intro body
      have hwording : wording (.word "def" :: .space :: .word name :: .symbol "(" ::
          (qs ++ [Piece.symbol ")", Piece.space, Piece.symbol "->", Piece.space, Piece.word id])) =
          .word "def" :: .word name :: .symbol "(" ::
            (wording qs ++ [Token.symbol ")", Token.symbol "->", Token.word id]) := by
        simp
      rw [hwording]
      have hsplit := List.splitOn_append_cons_self_of_not_mem hclose [.symbol "->", .word id]
      have harrow : [Token.symbol "->", .word id].splitOn (.symbol ")") =
          [[.symbol "->", .word id]] := List.splitOn_eq_singleton (by simp)
      simp [readHeader, readFunction, identifier?, hname, hsplit, harrow, hread, name?_word hid,
        shownOption, hshown]

theorem says_class (hname : isIdentifier name = true)
    (hbases : ∀ e ∈ es, isIdentifierName e = true) :
    ∃ ps, Says set (classLine set name es) (Piece.word "class" :: ps ++ [Piece.symbol ":"]) ∧
      ∀ body, readHeader body (wording (.word "class" :: ps)) =
        some (.statement (.classDef name (shownAll es) body [])) := by
  have hclass : Says set [.text "class "] [.word "class", .space] := says_text set (by decide)
  have hhead := hclass.append (says_word set (isWord_of_isIdentifier hname)) (by simp)
  by_cases hnil : es = []
  · subst hnil
    refine ⟨[.space, .word name], hhead.colon, ?_⟩
    intro body
    simp [readHeader, readClass, identifier?, hname, shownAll]
  · obtain ⟨qs, hqs, hclose, hread⟩ := says_parenthesized (saysItem_names hm hbases)
    have hline := (hhead.append hqs (by simp [Piece.apart])).colon
    refine ⟨.space :: .word name :: .symbol "(" :: (qs ++ [Piece.symbol ")"]),
      by simpa [classLine, hnil] using hline, ?_⟩
    intro body
    have hwording : wording (.word "class" :: .space :: .word name :: .symbol "(" ::
        (qs ++ [Piece.symbol ")"])) =
        .word "class" :: .word name :: .symbol "(" :: (wording qs ++ [Token.symbol ")"]) := by
      simp
    have hsplit := List.splitOn_append_cons_self_of_not_mem hclose []
    rw [hwording]
    simp [readHeader, readClass, identifier?, hname, hsplit, hread]

theorem says_handler {type : Option Expr}
    {name : Option String} (htype : type.all isIdentifierName = true)
    (hname : name.all isIdentifier = true) (hboth : name.isSome = true → type.isSome = true) :
    ∃ ps, Says set (handlerLine set type name) (Piece.word "except" :: ps ++ [Piece.symbol ":"]) ∧
      ∀ body, readHeader body (wording (.word "except" :: ps)) =
        some (.exceptPart (.mk body (shownOption type) name)) := by
  have hexcept : Says set [.text "except"] [.word "except"] := says_text set (by decide)
  have hspace : Says set [.text " "] [.space] := says_text set (by decide)
  have has : Says set [.text " as "] [.space, .word "as", .space] := says_text set (by decide)
  cases type with
  | none =>
    cases name with
    | none =>
      refine ⟨[], hexcept.colon, ?_⟩
      intro body
      rfl
    | some name => exact absurd (hboth rfl) (by simp)
  | some e =>
    obtain ⟨id, hid, hshown, hspoken⟩ := says_name hm htype
    have hno : Token.word "as" ∉ [Token.word id] := by
      simpa using (word_ne_keyword hid (by decide)).symm
    have hhead := (hexcept.append hspace (by simp)).append hspoken (by simp)
    cases name with
    | none =>
      refine ⟨[.space, .word id], ?_, ?_⟩
      · simpa [handlerLine, optionalPart, asPart] using hhead.colon
      · intro body
        have hsplit := List.splitOn_eq_singleton hno
        simp [readHeader, readHandler, hsplit, name?_word hid, shownOption,
          hshown]
    | some name =>
      have hword := says_word set (isWord_of_isIdentifier hname)
      have hline := (hhead.append (has.append hword (by simp)) (by simp)).colon
      refine ⟨[.space, .word id, .space, .word "as", .space, .word name], ?_, ?_⟩
      · simpa [handlerLine, optionalPart, asPart] using hline
      · intro body
        have hsplit : [Token.word id, .word "as", .word name].splitOn (.word "as") =
            [[.word id], [.word name]] := by
          have hlast : Token.word "as" ∉ [Token.word name] := by
            simpa using (word_ne_keyword hname (by decide)).symm
          rw [← List.splitOn_eq_singleton hlast]
          exact List.splitOn_append_cons_self_of_not_mem hno [.word name]
        have hidentifier : identifier? [.word name] = some name := by
          have : isIdentifier name = true := hname
          simp [identifier?, this]
        simp [readHeader, readHandler, hsplit, name?_word hid, hidentifier,
          shownOption, hshown]

/-- Targets and a value, or a value by itself. -/
theorem says_assignment
    (hes : ∀ e ∈ es, isIdentifierName e = true) (he : isIdentifierName e = true) :
    ∃ ids name, (∀ id ∈ ids, isIdentifier id = true) ∧ isIdentifier name = true ∧
      shownAll es = ids.map (.name ·) ∧ shown e = .name name ∧
      Says set ((fragments set.names es).flatMap assignTarget ++ (e.fragment set.names).bare)
        (assignPieces ids name) := by
  obtain ⟨name, hname, hshown, hspoken⟩ := says_name hm he
  have hequals : Says set [.text " = "] [.space, .symbol "=", .space] := says_text set (by decide)
  induction es with
  | nil => exact ⟨[], name, by simp, hname, rfl, hshown, hspoken⟩
  | cons target es ih =>
    obtain ⟨id, hid, htarget, hfirst⟩ := says_name hm (hes target (by simp))
    obtain ⟨ids, value, hids, hvalue, hall, hlast, hmore⟩ :=
      ih fun e' he' => hes e' (List.mem_cons_of_mem target he')
    refine ⟨id :: ids, value, by simpa using ⟨hid, hids⟩, hvalue, ?_, hlast, ?_⟩
    · simp [shownAll, htarget, hall]
    · have hline := (hfirst.append hequals (by simp)).append hmore (by simp)
      simpa [fragments, assignTarget, assignPieces] using hline

end Says

end CodePrinter.Python
