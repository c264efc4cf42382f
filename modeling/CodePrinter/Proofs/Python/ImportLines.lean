import CodePrinter.Proofs.Python.Headers

/-! A reader for lines that import, and the names on such lines.

Main statements: a line of names is read as its words and symbols (`nameTokensFrom?_spell`), names
with points in them are read as they are written (`named_dotted`), and so are the paths of modules
(`exists_pathPieces`). -/
namespace CodePrinter.Python

def nameToken : List Char → List Token
  | [] => []
  | cs => [.word (String.ofList cs)]

/-- The tokens of a line of names, where a word is begun already. Every point is a token, since
those before the name of a module are counted. -/
def nameTokensFrom? : (word : List Char) → List Char → Option (List Token)
  | word, [] => some (nameToken word)
  | word, c :: cs =>
    if isWordChar c then nameTokensFrom? (word ++ [c]) cs
    else if c = ' ' then (nameTokensFrom? [] cs).map (nameToken word ++ ·)
    else if c ∈ ['.', ',', '(', ')'] then
      (nameTokensFrom? [] cs).map (nameToken word ++ .symbol (String.singleton c) :: ·)
    else none

/-- Identifiers with points between them. -/
def dottedName? (ts : List Token) : Option String :=
  (separated? "." identifier? ts).map fun names =>
    String.ofList (['.'].intercalate (names.map String.toList))

/-- A name, and the name that it gets here if there is one. -/
def alias? (read : List Token → Option String) (ts : List Token) : Option Alias :=
  match ts.splitOn (.word "as") with
  | [name] => (read name).map fun name => { name }
  | [name, asName] =>
    (read name).bind fun name => (identifier? asName).map fun asName =>
      { name, asName := some asName }
  | _ => none

/-- Points, or the name of a module with any number of points before it. -/
def modulePath? (ts : List Token) : Option String :=
  let points := String.ofList ((ts.takeWhile (· = .symbol ".")).map fun _ => '.')
  match ts.dropWhile (· = .symbol ".") with
  | [] => if points = "" then none else some points
  | name => (dottedName? name).map (points ++ ·)

/-- Names from a module, which may stand in parentheses. -/
def fromNames? : List Token → Option (List Alias)
  | .symbol "(" :: ts =>
    if ts.getLast? = some (.symbol ")") then separated? "," (alias? identifier?) ts.dropLast
    else none
  | ts => separated? "," (alias? identifier?) ts

def importTokens? : List Token → Option Stmt
  | .word "import" :: ts => (separated? "," (alias? dottedName?) ts).map fun names =>
    .importNames names
  | .word "from" :: ts => match ts.splitOn (.word "import") with
    | [path, names] =>
      (modulePath? path).bind fun path => (fromNames? names).map fun names =>
        .importFrom (some path) names
    | _ => none
  | _ => none

/-- Reads a text that is one line. -/
def readImport? (text : String) : Option Stmt :=
  match text.toList.splitOn '\n' with
  | [line, []] => (nameTokensFrom? [] line).bind importTokens?
  | _ => none

variable {set : Settings} {ps : List Piece} {p : Piece} {ts : List Token} {c : Char}
  {cs word : List Char} {text id : String} {read : List Token → Option String}
  {pieces : String → List Piece}

/-! Tokens. -/

/-- A part of a line of names. -/
def Piece.isNamePart : Piece → Bool
  | .symbol text => text ∈ [".", ",", "(", ")"]
  | _ => true

theorem nameTokensFrom?_word (hcs : ∀ c ∈ cs, isWordChar c = true) (word rest : List Char) :
    nameTokensFrom? word (cs ++ rest) = nameTokensFrom? (word ++ cs) rest := by
  induction cs generalizing word with
  | nil => simp
  | cons c cs ih =>
    rw [List.cons_append, nameTokensFrom?, if_pos (hcs c (by simp)),
      ih fun d hd => hcs d (List.mem_cons_of_mem c hd), List.append_assoc]
    rfl

theorem nameTokensFrom?_space (word rest : List Char) :
    nameTokensFrom? word (' ' :: rest) = (nameTokensFrom? [] rest).map (nameToken word ++ ·) := by
  rw [nameTokensFrom?, if_neg (by decide), if_pos rfl]

theorem nameTokensFrom?_symbol (hc : c ∈ ['.', ',', '(', ')']) (word rest : List Char) :
    nameTokensFrom? word (c :: rest) =
      (nameTokensFrom? [] rest).map (nameToken word ++ .symbol (String.singleton c) :: ·) := by
  have hall : ∀ c ∈ ['.', ',', '(', ')'], isWordChar c = false ∧ c ≠ ' ' := by decide
  obtain ⟨hword, hspace⟩ := hall c hc
  rw [nameTokensFrom?, if_neg (by simp [hword]), if_neg hspace, if_pos hc]

theorem nameTokensFrom?_points (n : Nat) (rest : List Char) :
    nameTokensFrom? [] (List.replicate n '.' ++ rest) =
      (nameTokensFrom? [] rest).map (List.replicate n (.symbol ".") ++ ·) := by
  induction n with
  | zero => simp
  | succ n ih =>
    rw [List.replicate_succ, List.cons_append, nameTokensFrom?_symbol (by decide), ih]
    simp [nameToken, Function.comp_def, List.replicate_succ]

/-- What is read is on one line. -/
theorem oneLine_of_nameTokensFrom? (h : nameTokensFrom? word cs = some ts) : '\n' ∉ cs := by
  induction cs generalizing word ts with
  | nil => simp
  | cons c cs ih =>
    rw [List.mem_cons, not_or]
    unfold nameTokensFrom? at h
    split at h
    · rename_i hword
      refine ⟨?_, ih h⟩
      rintro rfl
      exact absurd hword (by decide)
    · split at h
      · rename_i hspace
        obtain ⟨us, hus, -⟩ := Option.map_eq_some_iff.mp h
        exact ⟨by simp [hspace], ih hus⟩
      · split at h
        · rename_i hsymbol
          obtain ⟨us, hus, -⟩ := Option.map_eq_some_iff.mp h
          refine ⟨?_, ih hus⟩
          rintro rfl
          exact absurd hsymbol (by decide)
        · cases h

/-- A line of names is read as its words and symbols. -/
theorem nameTokensFrom?_spell (h : Phrase ps) (hn : ∀ p ∈ ps, p.isNamePart = true)
    (hword : word = [] ∨ ∀ text, ps.head? ≠ some (.word text)) :
    nameTokensFrom? word (spell ps).toList = some (nameToken word ++ wording ps) := by
  -- a word goes on to the next part, so the word at hand is part of the statement
  induction ps generalizing word with
  | nil => simp [spell, nameTokensFrom?]
  | cons p ps ih =>
    obtain ⟨hwhole, hchain⟩ := h
    have hps : Phrase ps := ⟨fun q hq => hwhole q (List.mem_cons_of_mem p hq), hchain.tail⟩
    have hns : ∀ q ∈ ps, q.isNamePart = true := fun q hq => hn q (List.mem_cons_of_mem p hq)
    have hp := hwhole p (by simp)
    rw [spell_cons, String.toList_append]
    cases p with
    | word text =>
      obtain rfl : word = [] := hword.resolve_right fun hne => hne text rfl
      obtain ⟨c, cs, htext, -, -⟩ := spells_of_isWord 0 hp
      have hnext : ∀ next, ps.head? ≠ some (.word next) := by
        intro next hnext
        obtain ⟨qs, rfl⟩ : ∃ qs, ps = .word next :: qs :=
          ⟨ps.tail, List.eq_cons_of_mem_head? hnext⟩
        cases (List.isChain_cons_cons.mp hchain).1
      have htoken : nameToken text.toList = [.word text] := by
        rw [htext, nameToken, ← htext, String.ofList_toList]
        simp
      rw [Piece.text, nameTokensFrom?_word fun d hd => isWordChar_of_isWord hp hd, List.nil_append,
        ih hps hns (.inr hnext), htoken]
      rfl
    | symbol text =>
      have hsymbol : text ∈ [".", ",", "(", ")"] := of_decide_eq_true (hn (.symbol text) (by simp))
      obtain ⟨c, rfl, hc⟩ : ∃ c, text = String.singleton c ∧ c ∈ ['.', ',', '(', ')'] := by
        simp only [List.mem_cons, List.not_mem_nil, or_false] at hsymbol
        obtain rfl | rfl | rfl | rfl := hsymbol
        · exact ⟨'.', rfl, by simp⟩
        · exact ⟨',', rfl, by simp⟩
        · exact ⟨'(', rfl, by simp⟩
        · exact ⟨')', rfl, by simp⟩
      rw [Piece.text, String.toList_singleton, List.singleton_append, nameTokensFrom?_symbol hc,
        ih hps hns (.inl rfl)]
      simp [nameToken]
    | space =>
      change nameTokensFrom? word (' ' :: (spell ps).toList) = _
      rw [nameTokensFrom?_space, ih hps hns (.inl rfl)]
      simp [nameToken]

/-! Names. -/

/-- Identifiers with points between them. -/
def isDotted (text : String) : Bool :=
  (text.toList.splitOn '.').all fun cs => isIdentifier (String.ofList cs)

/-- Points, or identifiers with points between and perhaps before them. -/
def isModulePath (text : String) : Bool :=
  if text.toList.all (· = '.') then text ≠ ""
  else isDotted (String.ofList (text.toList.dropWhile (· = '.')))

/-- Words with points between them. -/
def pointed : List String → List Piece
  | [] => []
  | [id] => [.word id]
  | id :: ids => .word id :: .symbol "." :: pointed ids

/-- The parts of a name with points in it. -/
def dottedPieces (text : String) : List Piece :=
  pointed ((text.toList.splitOn '.').map String.ofList)

section Pointed

variable {ids : List String}

theorem pointed_cons_cons (id next : String) (ids : List String) :
    pointed (id :: next :: ids) = .word id :: .symbol "." :: pointed (next :: ids) := by
  rw [pointed]
  simp

theorem wording_pointed (ids : List String) :
    wording (pointed ids) = [.symbol "."].intercalate (ids.map fun id => [.word id]) := by
  induction ids with
  | nil => rfl
  | cons id ids ih =>
    cases ids with
    | nil => simp [pointed]
    | cons next ids =>
      rw [pointed_cons_cons, wording_cons, wording_cons, ih]
      simp [List.intercalate_cons_cons]

theorem toList_spell_pointed (ids : List String) :
    (spell (pointed ids)).toList = ['.'].intercalate (ids.map String.toList) := by
  induction ids with
  | nil => rfl
  | cons id ids ih =>
    cases ids with
    | nil => simp [pointed, spell, Piece.text]
    | cons next ids =>
      rw [pointed_cons_cons, spell_cons, spell_cons, String.toList_append, String.toList_append, ih]
      simp [List.intercalate_cons_cons, Piece.text]

theorem phrase_pointed (h : ∀ id ∈ ids, isIdentifier id = true) : Phrase (pointed ids) := by
  induction ids with
  | nil => decide
  | cons id ids ih =>
    have hword : Phrase [.word id] :=
      ⟨by simpa [Piece.isWhole] using isWord_of_isIdentifier (h id (by simp)), .singleton _⟩
    cases ids with
    | nil => exact hword
    | cons next ids =>
      have hpoint : Phrase [.symbol "."] := by decide
      have hmore := ih fun x hx => h x (List.mem_cons_of_mem id hx)
      have hhead : ∀ q ∈ (pointed (next :: ids)).head?, q = .word next := by
        cases ids <;> simp [pointed]
      rw [pointed_cons_cons]
      refine (hword.append hpoint (by simp [Piece.apart])).append hmore ?_
      intro p hp q hq
      obtain rfl := hhead q hq
      cases p <;> simp_all [Piece.apart]

theorem mem_pointed (hp : p ∈ pointed ids) : p = .symbol "." ∨ ∃ id ∈ ids, p = .word id := by
  induction ids with
  | nil => cases hp
  | cons id ids ih =>
    cases ids with
    | nil => exact .inr ⟨id, by simp, by simpa [pointed] using hp⟩
    | cons next ids =>
      rw [pointed_cons_cons, List.mem_cons, List.mem_cons] at hp
      obtain rfl | rfl | hp := hp
      · exact .inr ⟨id, by simp, rfl⟩
      · exact .inl rfl
      · obtain hp | ⟨x, hx, hp⟩ := ih hp
        · exact .inl hp
        · exact .inr ⟨x, List.mem_cons_of_mem id hx, hp⟩

end Pointed

/-- A name is printed as some parts, none of which separates names, and read back. -/
structure Named (set : Settings) (read : List Token → Option String)
    (pieces : String → List Piece) (text : String) : Prop where
  spoken : Says set [.text text] (pieces text)
  reads : read (wording (pieces text)) = some text
  parts : ∀ p ∈ pieces text, p = .symbol "." ∨ ∃ id, isIdentifier id = true ∧ p = .word id

/-- An identifier is one word. -/
def wordPieces (id : String) : List Piece := [.word id]

theorem named_identifier (set : Settings) (h : isIdentifier id = true) :
    Named set identifier? wordPieces id where
  spoken := says_word set (isWord_of_isIdentifier h)
  reads := by simp [wordPieces, identifier?, h]
  parts := by
    intro p hp
    exact .inr ⟨id, h, by simpa [wordPieces] using hp⟩

theorem isIdentifier_of_isDotted (h : isDotted text = true) :
    ∀ id ∈ (text.toList.splitOn '.').map String.ofList, isIdentifier id = true := by
  intro id hid
  obtain ⟨cs, hcs, rfl⟩ := List.mem_map.mp hid
  exact List.all_eq_true.mp h cs hcs

theorem spell_dottedPieces (text : String) : spell (dottedPieces text) = text := by
  rw [← String.toList_inj, dottedPieces, toList_spell_pointed, List.map_map]
  simp [Function.comp_def, List.intercalate_splitOn]

theorem dottedName?_pointed {ids : List String} (h : ∀ id ∈ ids, isIdentifier id = true)
    (hne : ids ≠ []) : dottedName? (wording (pointed ids)) = some (spell (pointed ids)) := by
  have hread : List.Forall₂ (fun ts id => identifier? ts = some id)
      (ids.map fun id => [.word id]) ids := by
    rw [List.forall₂_map_left_iff, List.forall₂_same]
    intro id hid
    simp [identifier?, h id hid]
  rw [dottedName?, wording_pointed, separated?_intercalate (by simp) hread (by simpa using hne),
    Option.map_some, ← toList_spell_pointed, String.ofList_toList]

theorem named_dotted (set : Settings) (h : isDotted text = true) :
    Named set dottedName? dottedPieces text where
  spoken := says_text set ⟨spell_dottedPieces text, phrase_pointed (isIdentifier_of_isDotted h)⟩
  reads := by
    have hne : (text.toList.splitOn '.').map String.ofList ≠ [] := by
      simp [List.splitOn_ne_nil]
    rw [dottedPieces, dottedName?_pointed (isIdentifier_of_isDotted h) hne, ← dottedPieces,
      spell_dottedPieces]
  parts := by
    intro p hp
    obtain rfl | ⟨id, hid, rfl⟩ := mem_pointed hp
    · exact .inl rfl
    · exact .inr ⟨id, isIdentifier_of_isDotted h id hid, rfl⟩

namespace Named

theorem isNamePart (h : Named set read pieces text) : ∀ p ∈ pieces text, p.isNamePart = true := by
  intro p hp
  obtain rfl | ⟨id, -, rfl⟩ := h.parts p hp
  · decide
  · rfl

/-- Neither a keyword nor any symbol but the point is part of a name. -/
theorem notMem (h : Named set read pieces text) {t : Token} (ht : t ≠ .symbol ".")
    (hk : ∀ id, t = .word id → id ∈ keywords) : t ∉ wording (pieces text) := by
  intro hmem
  obtain ⟨p, hp, htp⟩ := List.mem_flatMap.mp hmem
  obtain rfl | ⟨id, hid, rfl⟩ := h.parts p hp
  · exact ht (by simpa using htp)
  · exact notMem_keywords_of_isIdentifier hid (hk id (by simpa using htp))

end Named

/-! Paths of modules. -/

theorem modulePath?_points (n : Nat) : modulePath? (List.replicate (n + 1) (.symbol ".")) =
    some (String.ofList (List.replicate (n + 1) '.')) := by
  simp [modulePath?, List.replicate_succ]

theorem modulePath?_name (n : Nat) (id : String) (ts : List Token) :
    modulePath? (List.replicate n (.symbol ".") ++ .word id :: ts) =
      (dottedName? (.word id :: ts)).map (String.ofList (List.replicate n '.') ++ ·) := by
  have hall : ∀ t ∈ List.replicate n (Token.symbol "."), decide (t = .symbol ".") = true := by
    intro t ht
    simp [List.eq_of_mem_replicate ht]
  simp [modulePath?, List.takeWhile_append_of_pos hall, List.dropWhile_append_of_pos hall]

theorem head_dottedPieces (text : String) :
    ∃ id ts, wording (dottedPieces text) = .word id :: ts := by
  have hne : (text.toList.splitOn '.').map String.ofList ≠ [] := by simp [List.splitOn_ne_nil]
  obtain ⟨id, ids, hids⟩ := List.exists_cons_of_ne_nil hne
  rw [dottedPieces, hids]
  cases ids <;> exact ⟨id, _, rfl⟩

/-- The parts of a path after the points that it begins with. -/
theorem exists_pathPieces {path : String} (set : Settings) (h : isModulePath path = true) :
    ∃ n ps, path = String.ofList (List.replicate n '.') ++ spell ps ∧ Phrase ps ∧
      (∀ p ∈ ps, p.isNamePart = true) ∧ .word "import" ∉ wording ps ∧
      modulePath? (List.replicate n (.symbol ".") ++ wording ps) = some path := by
  unfold isModulePath at h
  split at h
  · rename_i hall
    have hpath : path.toList = List.replicate path.toList.length '.' := by
      rw [List.eq_replicate_iff]
      exact ⟨rfl, fun c hc => of_decide_eq_true (List.all_eq_true.mp hall c hc)⟩
    obtain ⟨n, hn⟩ : ∃ n, path.toList.length = n + 1 := by
      refine Nat.exists_eq_succ_of_ne_zero fun hzero => of_decide_eq_true h ?_
      exact String.toList_inj.mp (List.eq_nil_of_length_eq_zero hzero)
    rw [hn] at hpath
    have hofList : path = String.ofList (List.replicate (n + 1) '.') := by
      rw [← hpath, String.ofList_toList]
    refine ⟨n + 1, [], by simpa [spell] using hofList, by decide, by simp, by simp, ?_⟩
    rw [wording_nil, List.append_nil, modulePath?_points, ← hofList]
  · have hnamed := named_dotted set h
    have hsplit := List.takeWhile_append_dropWhile (p := (· = '.')) (l := path.toList)
    have hpoints : path.toList.takeWhile (· = '.') =
        List.replicate (path.toList.takeWhile (· = '.')).length '.' := by
      rw [List.eq_replicate_iff]
      exact ⟨rfl, fun c hc => of_decide_eq_true (List.all_eq_true.mp List.all_takeWhile c hc)⟩
    generalize (path.toList.takeWhile (· = '.')).length = n at hpoints
    have hpath : path = String.ofList (List.replicate n '.') ++
        String.ofList (path.toList.dropWhile (· = '.')) := by
      rw [← String.ofList_append, ← hpoints, hsplit, String.ofList_toList]
    obtain ⟨id, ts, hts⟩ := head_dottedPieces (String.ofList (path.toList.dropWhile (· = '.')))
    refine ⟨n, _, ?_, hnamed.spoken.phrase, hnamed.isNamePart, ?_, ?_⟩
    · rw [spell_dottedPieces, ← hpath]
    · exact hnamed.notMem (by simp) (by rintro id ⟨⟩; decide)
    · rw [hts, modulePath?_name, ← hts, hnamed.reads, Option.map_some, ← hpath]

end CodePrinter.Python
