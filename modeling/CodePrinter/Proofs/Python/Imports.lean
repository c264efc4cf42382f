import CodePrinter.Proofs.KeptMappings
import CodePrinter.Proofs.Python.ImportLines

/-! Printed imports, read back.

Main statement: names that are imported from a module are read back, and so is a single name that
is imported by itself; several of them are printed in parentheses, which an `import` by itself does
not have (`readImport?_renderStmts`). -/
namespace CodePrinter.Python

variable {set : Settings} {ps : List Piece} {p : Piece} {ts us : List Token} {text : String}
  {a : Alias} {names : List Alias} {read : List Token → Option String}
  {pieces : String → List Piece} {ok : String → Bool}

/-! Imported names. -/

/-- What of an imported name its text shows: not a name here that is the same. -/
def shownAlias (a : Alias) : Alias := { a with asName := a.asName.filter (· ≠ a.name) }

/-- The parts of an imported name. -/
def aliasPieces (pieces : String → List Piece) (a : Alias) : List Piece :=
  pieces a.name ++ match (shownAlias a).asName with
    | none => []
    | some asName => [.space, .word "as", .space] ++ pieces asName

theorem print_alias (a : Alias) :
    a.print = .text a.name :: match (shownAlias a).asName with
      | none => []
      | some asName => [.text " as ", .text asName] := by
  obtain ⟨name, asName⟩ := a
  unfold Alias.print shownAlias
  cases asName with
  | none => rfl
  | some asName => by_cases h : asName = name <;> simp [h, Option.filter]

/-- The names of an import are printed and read in some way. -/
def NamedAlias (set : Settings) (read : List Token → Option String)
    (pieces : String → List Piece) (a : Alias) : Prop :=
  Named set read pieces a.name ∧ ∀ asName ∈ (shownAlias a).asName, Named set read pieces asName

namespace NamedAlias

theorem spoken (h : NamedAlias set read pieces a) : Says set a.print (aliasPieces pieces a) := by
  obtain ⟨hname, hasName⟩ := h
  rw [print_alias, aliasPieces]
  cases has : (shownAlias a).asName with
  | none => simpa using hname.spoken
  | some asName =>
    have hkeyword : Says set [.text " as "] [.space, .word "as", .space] :=
      says_text set (by decide)
    exact hname.spoken.append (hkeyword.append (hasName asName has).spoken (by simp)) (by simp)

theorem isNamePart (h : NamedAlias set read pieces a) :
    ∀ p ∈ aliasPieces pieces a, p.isNamePart = true := by
  obtain ⟨hname, hasName⟩ := h
  unfold aliasPieces
  rw [List.forall_mem_append]
  refine ⟨hname.isNamePart, ?_⟩
  cases has : (shownAlias a).asName with
  | none => simp
  | some asName =>
    dsimp only
    rw [List.forall_mem_append]
    exact ⟨by decide, (hasName asName has).isNamePart⟩

theorem notMem (h : NamedAlias set read pieces a) {t : Token} (ht : t ≠ .symbol ".")
    (hk : ∀ id, t = .word id → id ∈ keywords) (has : t ≠ .word "as") :
    t ∉ wording (aliasPieces pieces a) := by
  obtain ⟨hname, hasName⟩ := h
  rw [aliasPieces, wording_append, List.mem_append, not_or]
  refine ⟨hname.notMem ht hk, ?_⟩
  cases hs : (shownAlias a).asName with
  | none => simp
  | some asName => simpa [has] using (hasName asName hs).notMem ht hk

/-- The name is read, and then the name it gets here if that is an identifier. -/
theorem alias?_wording (h : NamedAlias set read pieces a) :
    alias? read (wording (aliasPieces pieces a)) = match (shownAlias a).asName with
      | none => some (shownAlias a)
      | some asName => (identifier? (wording (pieces asName))).map fun asName =>
        { name := a.name, asName := some asName } := by
  obtain ⟨hname, hasName⟩ := h
  have has : ∀ {text}, Named set read pieces text → .word "as" ∉ wording (pieces text) :=
    fun hn => hn.notMem (by simp) (by rintro id ⟨⟩; decide)
  cases hs : (shownAlias a).asName with
  | none =>
    have hsplit := List.splitOn_eq_singleton (has hname)
    have hshown : shownAlias a = { name := a.name } := by
      rw [← hs]
      rfl
    simp [alias?, aliasPieces, hsplit, hname.reads, hshown]
  | some asName =>
    have hsplit := List.splitOn_append_cons_self_of_not_mem (has hname) (wording (pieces asName))
    rw [List.splitOn_eq_singleton (has (hasName asName hs))] at hsplit
    simp [alias?, aliasPieces, hs, hsplit, hname.reads]

end NamedAlias

theorem namedAlias_of (hn : ∀ text, ok text = true → Named set read pieces text)
    (h : ok a.name = true ∧ ∀ asName ∈ a.asName, ok asName = true) :
    NamedAlias set read pieces a := by
  refine ⟨hn _ h.1, ?_⟩
  intro asName has
  exact hn _ (h.2 asName (Option.mem_filter_iff.mp has).1)

/-- A name with points in it is no identifier. -/
theorem identifier?_dottedPieces (text : String) :
    identifier? (wording (dottedPieces text)) =
      if isIdentifier text = true then some text else none := by
  by_cases h : isIdentifier text = true
  · have hpoint : '.' ∉ text.toList := by
      intro hmem
      exact absurd (isWordChar_of_isWord (isWord_of_isIdentifier h) hmem) (by decide)
    simp [dottedPieces, List.splitOn_eq_singleton hpoint, pointed, identifier?, h]
  · rw [if_neg h]
    unfold identifier?
    split
    · rename_i id hwording
      -- a single word is the whole name
      have hspell := spell_dottedPieces text
      obtain ⟨x, hx⟩ : ∃ x, (text.toList.splitOn '.').map String.ofList = [x] := by
        rw [dottedPieces, wording_pointed] at hwording
        generalize (text.toList.splitOn '.').map String.ofList = ids at hwording
        rcases ids with _ | ⟨x, _ | ⟨y, ys⟩⟩
        · simp at hwording
        · exact ⟨x, rfl⟩
        · simp at hwording
      rw [dottedPieces, hx] at hspell hwording
      simp [pointed, spell, Piece.text] at hspell hwording
      subst hspell hwording
      rw [if_neg h]
    · rfl

/-! Lists of imported names. -/

/-- The parts of imported names, in parentheses if there are several. -/
def aliasesPieces (pieces : String → List Piece) (names : List Alias) : List Piece :=
  let items := commaPieces (names.map (aliasPieces pieces))
  if 1 < names.length then .symbol "(" :: items ++ [.symbol ")"] else items

theorem says_aliases (hne : names ≠ []) (h : ∀ a ∈ names, NamedAlias set read pieces a) :
    Says set (aliases names) (aliasesPieces pieces names) := by
  have hitems : List.Forall₂ (Says set) (names.map Alias.print)
      (names.map (aliasPieces pieces)) := by
    rw [List.forall₂_map_left_iff, List.forall₂_map_right_iff, List.forall₂_same]
    exact fun a ha => (h a ha).spoken
  have hlist := says_commaSeparated (by simpa using hne) hitems
  have hopen : Says set [.text "("] [.symbol "("] := says_text set (by decide)
  have hclose : Says set [.text ")"] [.symbol ")"] := says_text set (by decide)
  unfold aliases aliasesPieces
  dsimp only
  split
  · exact (hopen.append hlist (by simp)).append hclose (by simp)
  · exact hlist

theorem isNamePart_aliasesPieces (h : ∀ a ∈ names, NamedAlias set read pieces a) :
    ∀ p ∈ aliasesPieces pieces names, p.isNamePart = true := by
  have hitems : ∀ p ∈ commaPieces (names.map (aliasPieces pieces)), p.isNamePart = true := by
    intro p hp
    by_contra hno
    refine notMem_intercalate ?_ ?_ hp
    · intro hmem
      have hall : ∀ q ∈ [Piece.symbol ",", .space], q.isNamePart = true := by decide
      exact hno (hall p hmem)
    · intro ps hps hmem
      obtain ⟨a, ha, rfl⟩ := List.mem_map.mp hps
      exact hno ((h a ha).isNamePart p hmem)
  unfold aliasesPieces
  dsimp only
  split
  · intro p hp
    simp only [List.mem_append, List.mem_cons, List.not_mem_nil, or_false] at hp
    obtain (rfl | hp) | rfl := hp
    · decide
    · exact hitems p hp
    · decide
  · exact hitems

theorem aliasesPieces_singleton (pieces : String → List Piece) (a : Alias) :
    aliasesPieces pieces [a] = aliasPieces pieces a := by
  simp [aliasesPieces, commaPieces]

theorem fromNames?_aliasesPieces (hne : names ≠ [])
    (h : ∀ a ∈ names, NamedAlias set identifier? wordPieces a) :
    fromNames? (wording (aliasesPieces wordPieces names)) = some (names.map shownAlias) := by
  have hlist : separated? "," (alias? identifier?)
      (wording (commaPieces (names.map (aliasPieces wordPieces)))) =
        some (names.map shownAlias) := by
    rw [wording_commaPieces, List.map_map]
    refine separated?_intercalate ?_ ?_ (by simpa using hne)
    · intro ts hts
      obtain ⟨a, ha, rfl⟩ := List.mem_map.mp hts
      exact (h a ha).notMem (by simp) (by simp) (by simp)
    · rw [List.forall₂_map_left_iff, List.forall₂_map_right_iff, List.forall₂_same]
      intro a ha
      rw [Function.comp_apply, (h a ha).alias?_wording]
      cases has : (shownAlias a).asName with
      | none => rfl
      | some asName =>
        dsimp only
        rw [((h a ha).2 asName has).reads, Option.map_some, ← has]
        rfl
  unfold aliasesPieces
  dsimp only
  split
  · simp [fromNames?, hlist]
  · rename_i hlength
    obtain ⟨a, rfl⟩ : ∃ a, names = [a] := by
      rw [← List.length_eq_one_iff]
      have := List.length_pos_iff.mpr hne
      omega
    exact hlist

/-! Parentheses are no part of names. -/

theorem splitOn_cons_ne {t separator : Token} (ht : t ≠ separator) (ts : List Token) :
    ∃ us more, (t :: ts).splitOn separator = (t :: us) :: more := by
  obtain ⟨us, more, hmore⟩ := List.exists_cons_of_ne_nil (List.splitOn_ne_nil separator ts)
  refine ⟨us, more, ?_⟩
  rw [List.splitOn_eq_splitOnP, List.splitOnP_cons_eq_if_modifyHead, if_neg (by simpa using ht),
    ← List.splitOn_eq_splitOnP, hmore]
  rfl

theorem separated?_eq_none {α : Type} {separator : String} {read : List Token → Option α}
    {t : Token} (ht : t ≠ .symbol separator) (hread : ∀ us, read (t :: us) = none)
    (ts : List Token) : separated? separator read (t :: ts) = none := by
  obtain ⟨us, more, hsplit⟩ := splitOn_cons_ne ht ts
  simp [separated?, hsplit, hread us]

theorem dottedName?_parenthesis (ts : List Token) : dottedName? (.symbol "(" :: ts) = none := by
  rw [dottedName?, separated?_eq_none (by decide) fun us => by cases us <;> rfl]
  rfl

theorem alias?_parenthesis (ts : List Token) : alias? dottedName? (.symbol "(" :: ts) = none := by
  obtain ⟨us, more, hsplit⟩ :=
    splitOn_cons_ne (show Token.symbol "(" ≠ .word "as" by decide) ts
  unfold alias?
  rw [hsplit]
  split
  · rename_i name heq
    cases heq
    rw [dottedName?_parenthesis]
    rfl
  · rename_i name asName heq
    cases heq
    rw [dottedName?_parenthesis]
    rfl
  · rfl

/-! Lines. -/

/-- A statement that is printed as a text on one line. -/
theorem renderStmts_line {s : Stmt} (h : Puts set (s.instrs set) text) (hne : text ≠ "") :
    (renderStmts set [s]).failure = none ∧
      (renderStmts set [s]).pass.page.pending = text ++ "\n" := by
  obtain ⟨q, hq, hpage⟩ := h {}
  have hrender : renderStmts set [s] = { pass := { q with page := q.page.endLine } } := by
    rw [renderStmts, stmtsInstrs, stmtsInstrs]
    exact perform_append_eq_pass.mpr ⟨q, hq, perform_singleton set .endLine q⟩
  have hwidth : Text.width text ≠ 0 := fun hw => hne (Text.width_eq_zero.mp hw)
  have hend : q.page.endLine.pending = text ++ "\n" := by
    rw [hpage, Page.endLine, if_neg]
    · simp [Page.newline, Page.print, Page.startLine, Page.indentation]
    · simp [Page.print, Page.startLine, Page.indentation, hwidth]
  rw [hrender]
  exact ⟨rfl, hend⟩

theorem readImport?_line (h : nameTokensFrom? [] text.toList = some ts) :
    readImport? (text ++ "\n") = importTokens? ts := by
  have hsplit := List.splitOn_append_cons_self_of_not_mem (oneLine_of_nameTokensFrom? h) []
  simp [readImport?, hsplit, h]

/-! Statements. -/

/-- A name that is imported by itself. -/
theorem importTokens?_alias (h : NamedAlias set dottedName? dottedPieces a) :
    importTokens? (.word "import" :: wording (aliasPieces dottedPieces a)) =
      if (shownAlias a).asName.all isIdentifier = true then some (.importNames [shownAlias a])
      else none := by
  have hcomma : .symbol "," ∉ wording (aliasPieces dottedPieces a) :=
    h.notMem (by simp) (by simp) (by simp)
  rw [importTokens?, separated?, List.splitOn_eq_singleton hcomma, List.mapM_cons, h.alias?_wording]
  cases has : (shownAlias a).asName with
  | none => rfl
  | some asName =>
    have hshown : shownAlias a = { name := a.name, asName := some asName } := by
      rw [← has]
      rfl
    dsimp only
    rw [identifier?_dottedPieces, hshown]
    by_cases hid : isIdentifier asName = true <;> simp [hid]

theorem importTokens?_parenthesis (ts : List Token) :
    importTokens? (.word "import" :: .symbol "(" :: ts) = none := by
  rw [importTokens?, separated?_eq_none (by decide) alias?_parenthesis]
  rfl

theorem importTokens?_from {path : String} {names : List Alias} (hpath : modulePath? ts = some path)
    (hnames : fromNames? us = some names) (hts : .word "import" ∉ ts) (hus : .word "import" ∉ us) :
    importTokens? (.word "from" :: (ts ++ .word "import" :: us)) =
      some (.importFrom (some path) names) := by
  rw [importTokens?, List.splitOn_append_cons_self_of_not_mem hts, List.splitOn_eq_singleton hus]
  simp [hpath, hnames]

/-- A line of names is read as its parts. -/
theorem readImport?_phrase {s : Stmt} (h : Says set (s.instrs set) (p :: ps))
    (hn : ∀ q ∈ p :: ps, q.isNamePart = true) :
    (renderStmts set [s]).failure = none ∧
      readImport? (renderStmts set [s]).pass.page.pending =
        importTokens? (wording (p :: ps)) := by
  have htokens := nameTokensFrom?_spell h.phrase hn (.inl rfl)
  have hne : spell (p :: ps) ≠ "" := by
    obtain ⟨c, cs, -, hp, -⟩ := spells_piece 0 (h.phrase.1 p (by simp))
    rw [Ne, ← String.toList_inj, spell_cons, String.toList_append, hp]
    simp
  obtain ⟨hfailure, hpending⟩ := renderStmts_line h.puts hne
  refine ⟨hfailure, ?_⟩
  rw [hpending, readImport?_line htokens]
  rfl

theorem says_importNames (hm : set.Unchecked) (loc : Option Location)
    (hne : names ≠ []) (h : ∀ a ∈ names, NamedAlias set read pieces a) :
    Says set ((Stmt.importNames names loc).instrs set)
      (.word "import" :: .space :: aliasesPieces pieces names) := by
  have hkeyword : Says set [.text "import "] [.word "import", .space] := says_text set (by decide)
  have hline := (hkeyword.append (says_aliases hne h) (by simp)).after_mark hm loc
  simpa [Stmt.instrs, hne] using hline

theorem notMem_import_aliasesPieces (h : ∀ a ∈ names, NamedAlias set read pieces a) :
    .word "import" ∉ wording (aliasesPieces pieces names) := by
  have hitems : .word "import" ∉ wording (commaPieces (names.map (aliasPieces pieces))) := by
    rw [wording_commaPieces, List.map_map]
    refine notMem_intercalate (by simp) ?_
    intro ts hts
    obtain ⟨a, ha, rfl⟩ := List.mem_map.mp hts
    exact (h a ha).notMem (by simp) (by rintro id ⟨⟩; decide) (by simp)
  unfold aliasesPieces
  dsimp only
  split
  · simpa using hitems
  · exact hitems

/-- Names that are imported from a module, whatever points its path begins with. -/
theorem readImport?_importFrom (hm : set.Unchecked) {path : String}
    {module : Option String} (hpath : set.resolve (module.getD ".") = .ok path)
    (hvalid : isModulePath path = true) (loc : Option Location) (hne : names ≠ [])
    (h : ∀ a ∈ names, NamedAlias set identifier? wordPieces a) :
    (renderStmts set [.importFrom module names loc]).failure = none ∧
      readImport? (renderStmts set [.importFrom module names loc]).pass.page.pending =
        some (.importFrom (some path) (names.map shownAlias)) := by
  obtain ⟨n, ps, hsplit, hphrase, hparts, hno, hread⟩ := exists_pathPieces set hvalid
  have hkeyword : Says set [.text " import "] [.space, .word "import", .space] :=
    says_text set (by decide)
  have hrest := hkeyword.append (says_aliases hne h) (by simp)
  have hputs : Puts set ((Stmt.importFrom module names loc).instrs set)
      ("from " ++ path ++ spell ([.space, .word "import", .space] ++
        aliasesPieces wordPieces names)) := by
    have hline := (((puts_text set "from ").append (puts_text set path)).append
      hrest.puts).after_mark hm loc
    simpa [Stmt.instrs, hne, hpath, textOr] using hline
  have hparts' : ∀ p ∈ ps ++ ([.space, .word "import", .space] ++ aliasesPieces wordPieces names),
      p.isNamePart = true := by
    rw [List.forall_mem_append, List.forall_mem_append]
    exact ⟨hparts, by decide, isNamePart_aliasesPieces h⟩
  have htokens := nameTokensFrom?_spell (hphrase.append hrest.phrase (by simp)) hparts' (.inl rfl)
  have hline : nameTokensFrom? [] ("from " ++ path ++ spell ([.space, .word "import", .space] ++
      aliasesPieces wordPieces names)).toList =
        some (.word "from" :: ((List.replicate n (.symbol ".") ++ wording ps) ++
          .word "import" :: wording (aliasesPieces wordPieces names))) := by
    have hchars : ("from " ++ path ++ spell ([.space, .word "import", .space] ++
        aliasesPieces wordPieces names)).toList = "from".toList ++ (' ' ::
          (List.replicate n '.' ++ (spell (ps ++ ([.space, .word "import", .space] ++
            aliasesPieces wordPieces names))).toList)) := by
      rw [hsplit]
      simp [spell_append]
    rw [hchars, nameTokensFrom?_word (by decide), nameTokensFrom?_space, nameTokensFrom?_points,
      htokens]
    simp [nameToken]
  obtain ⟨hfailure, hpending⟩ := renderStmts_line hputs (by simp [String.append_eq_empty_iff])
  refine ⟨hfailure, ?_⟩
  rw [hpending, readImport?_line hline]
  exact importTokens?_from hread (fromNames?_aliasesPieces hne h) (by simpa using hno)
    (notMem_import_aliasesPieces h)

/-- The names of an import meet a condition. -/
def AliasIs (ok : String → Bool) (a : Alias) : Prop :=
  ok a.name = true ∧ ∀ asName ∈ a.asName, ok asName = true

instance (ok : String → Bool) (a : Alias) : Decidable (AliasIs ok a) :=
  inferInstanceAs (Decidable (_ ∧ _))

/-- Names from a module are read back, with the path that it was given and without the names here
that are the same. A name that is imported by itself is read back too, unless it gets a name here
with points in it. Several of them are not read: they are printed in parentheses. -/
theorem readImport?_renderStmts {names : List Alias} (hne : names ≠ [])
    (loc : Option Location) :
    (∀ module path, set.resolve (module.getD ".") = .ok path → isModulePath path = true →
      (∀ a ∈ names, AliasIs isIdentifier a) →
      Pass.Keeps set {} (stmtsLocated set.names [.importFrom module names loc]) →
      let printed := renderStmts set [.importFrom module names loc]
      printed.failure = none ∧ readImport? printed.pass.page.pending =
        some (.importFrom (some path) (names.map shownAlias))) ∧
    ((∀ a ∈ names, AliasIs isDotted a) →
      Pass.Keeps set {} (stmtsLocated set.names [.importNames names loc]) →
      let printed := renderStmts set [.importNames names loc]
      printed.failure = none ∧ readImport? printed.pass.page.pending =
        if names.length = 1 ∧ ∀ a ∈ names, (shownAlias a).asName.all isIdentifier = true then
          some (.importNames (names.map shownAlias))
        else none) := by
  have hm := set.unchecked_withoutChecks
  refine ⟨?_, ?_⟩
  · intro module path hpath hvalid h hkeeps
    rw [renderStmts_withoutChecks hkeeps]
    rw [← set.resolve_withoutChecks] at hpath
    exact readImport?_importFrom hm hpath hvalid loc hne fun a ha =>
      namedAlias_of (fun _ => named_identifier _) (h a ha)
  · intro h hkeeps
    rw [renderStmts_withoutChecks hkeeps]
    generalize set.withoutChecks = set at hm ⊢
    have hnamed : ∀ a ∈ names, NamedAlias set dottedName? dottedPieces a := fun a ha =>
      namedAlias_of (fun _ => named_dotted set) (h a ha)
    have hparts : ∀ q ∈ .word "import" :: .space :: aliasesPieces dottedPieces names,
        q.isNamePart = true := by
      simpa [Piece.isNamePart] using isNamePart_aliasesPieces hnamed
    obtain ⟨hfailure, hread⟩ := readImport?_phrase (says_importNames hm loc hne hnamed) hparts
    refine ⟨hfailure, hread.trans ?_⟩
    obtain ⟨a, more, rfl⟩ := List.exists_cons_of_ne_nil hne
    cases more with
    | nil =>
      have htokens := importTokens?_alias (hnamed a (by simp))
      simpa [aliasesPieces_singleton] using htokens
    | cons b more => simp [aliasesPieces, importTokens?_parenthesis]

/-- A path up one directory, names here that are other names or the same ones, and a map that holds
the places of the imports. -/
theorem readImport?_renderStmts_relative :
    let set : Settings := { maps := .checked "main.fs" }
    let loc := some (Location.span 3 4)
    let names : List Alias :=
      [{ name := "load", asName := some "read" }, { name := "dump", asName := some "dump" }]
    let printed := renderStmts set [.importFrom (some "../io/text-files.py") names loc]
    let whole := renderStmts set [.importNames [{ name := "os.path", asName := some "path" }] loc]
    printed.pass.page.pending = "from ..io.text_files import (load as read, dump)\n" ∧
      readImport? printed.pass.page.pending = some (.importFrom (some "..io.text_files")
        [{ name := "load", asName := some "read" }, { name := "dump" }]) ∧
      whole.pass.page.pending = "import os.path as path\n" ∧
      readImport? whole.pass.page.pending =
        some (.importNames [{ name := "os.path", asName := some "path" }]) := by
  intro set loc names printed whole
  have hpath : ImportPath.dotted "../io/text-files.py" = "..io.text_files" := by decide +kernel
  have hkeeps : ∀ s : Stmt, s.loc = loc → Pass.Keeps set {} [.stmt s] := by
    intro s hs source hsource
    cases hsource
    refine ⟨by decide, Template.Cache.sound_empty, ?_⟩
    simp [Node.loc, hs, loc, Location.span]
  refine ⟨by decide +kernel, ?_, by decide +kernel, ?_⟩
  · exact ((readImport?_renderStmts (by simp [names]) loc).1 (some "../io/text-files.py")
      "..io.text_files" (congrArg Except.ok hpath) (by decide +kernel) (by decide +kernel)
      (hkeeps _ rfl)).2
  · exact ((readImport?_renderStmts (by simp) loc).2 (by decide +kernel) (hkeeps _ rfl)).2

/-- Two names that are imported by themselves are printed, but not read. -/
theorem readImport?_grouped_names :
    let names : List Alias := [{ name := "os" }, { name := "sys" }]
    let printed := renderStmts {} [.importNames names]
    (∀ a ∈ names, AliasIs isDotted a) ∧ printed.failure.isNone ∧
      printed.pass.page.pending = "import (os, sys)\n" ∧
      (readImport? printed.pass.page.pending).isNone ∧
      (readImport? "import os, sys\n").isSome := by
  decide +kernel

end CodePrinter.Python
