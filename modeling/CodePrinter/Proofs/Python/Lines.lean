import CodePrinter.Proofs.Python.Phrases
import CodePrinter.Proofs.Python.Statements

/-! The lines that printing instructions write, and what they are read as.

Main statements: a header and the lines under it are read as an item (`Sets.under`), what two lists
of instructions write is read one after the other (`Reads.append`), and what is read from whole
lines is read from the text that they make up (`readStmts?_of_reads`). -/
namespace CodePrinter.Python

/-- Indentation is some spaces, and mappings are not checked. -/
structure Spaced (set : Settings) (unit : Nat) : Prop where
  pos : 0 < unit
  indent : set.indent.toList = List.replicate unit ' '
  maps : set.Unchecked

variable {set : Settings} {unit : Nat} {is js : List Instr} {xs ys : List Item} {ts : List Token}
  {p : Piece} {ps : List Piece} {cs ds : List Clause} {c : Clause} {a b b' : Block}
  {body : List Stmt}

theorem Spaced.toList_indentation (hset : Spaced set unit) (depth : Nat) :
    (Page.indentation set.indent depth).toList = List.replicate (depth * unit) ' ' := by
  rw [Page.indentation, String.toList_join, List.flatMap_replicate, hset.indent,
    List.flatten_replicate_replicate]

/-- Instructions that print whole lines, from the start of a line and at whatever depth, are read
as an outline. -/
def Sets (set : Settings) (unit : Nat) (is : List Instr) (items : List Item) : Prop :=
  ∀ p, p.page.column = 0 → ∃ q text, perform set is p = { pass := q } ∧ q.page.column = 0 ∧
    q.page.depth = p.page.depth ∧ q.page.pending = p.page.pending ++ text ∧
    ∀ rest, readLines? unit (text.toList ++ rest) =
      (readLines? unit rest).map (itemsLines p.page.depth items ++ ·)

theorem sets_nil (set : Settings) (unit : Nat) : Sets set unit [] [] := by
  intro p hp
  exact ⟨p, "", perform_nil set p, hp, rfl, by simp, by simp [itemsLines]⟩

theorem Sets.append (h : Sets set unit is xs) (hj : Sets set unit js ys) :
    Sets set unit (is ++ js) (xs ++ ys) := by
  intro p hp
  obtain ⟨q, s, hq, hcolumn, hdepth, hs, hread⟩ := h p hp
  obtain ⟨r, t, hr, hcolumn', hdepth', ht, hread'⟩ := hj q hcolumn
  refine ⟨r, s ++ t, perform_append_eq_pass.mpr ⟨q, hq, hr⟩, hcolumn', hdepth'.trans hdepth, ?_, ?_⟩
  · rw [ht, hs, String.append_assoc]
  · intro rest
    rw [String.toList_append, List.append_assoc, hread, hread', hdepth, itemsLines_append]
    simp [Function.comp_def]

/-- An empty line is not read. -/
theorem sets_newline (set : Settings) (unit : Nat) : Sets set unit [.newline] [] := by
  intro p _
  refine ⟨_, "\n", perform_singleton set .newline p, rfl, rfl, rfl, ?_⟩
  intro rest
  simp [itemsLines, readLines?_empty]

theorem sets_endLine (set : Settings) (unit : Nat) : Sets set unit [.endLine] [] := by
  intro p hp
  have hpage : p.page.endLine = p.page := if_pos hp
  have hperform : perform set [.endLine] p = { pass := p } := by
    rw [perform_singleton, Instr.perform, Pass.onPage, hpage]
  exact ⟨p, "", hperform, hp, rfl, by simp, by simp [itemsLines]⟩

/-- A line is read as an item with nothing under it, however it ends. -/
theorem sets_line {last : Instr} (hset : Spaced set unit) (h : Says set is (p :: ps))
    (hp : p ≠ .space) (hl : last = .newline ∨ last = .endLine) :
    Sets set unit (is ++ [last]) [.mk (wording (p :: ps)) []] := by
  intro start hstart
  obtain ⟨q, hq, hpage⟩ := h.puts start
  obtain ⟨c, cs, htext, hc⟩ := head_spell hp h.phrase
  have hprint : q.page.column ≠ 0 ∧ q.page.depth = start.page.depth ∧ q.page.pending =
      start.page.pending ++ (Page.indentation set.indent start.page.depth ++ spell (p :: ps)) := by
    have hwidth : Text.width (spell (p :: ps)) ≠ 0 := by
      intro hzero
      rw [Text.width_eq_zero.mp hzero] at htext
      cases htext
    rw [hpage, Page.print, Page.startLine, if_pos hstart]
    refine ⟨?_, rfl, String.append_assoc⟩
    simp only
    omega
  have hlast : perform set [last] q = { pass := { q with page := q.page.newline } } := by
    rcases hl with rfl | rfl
    · exact perform_singleton set .newline q
    · rw [perform_singleton, Instr.perform, Pass.onPage, Page.endLine, if_neg hprint.1]
  refine ⟨_, Page.indentation set.indent start.page.depth ++ spell (p :: ps) ++ "\n",
    perform_append_eq_pass.mpr ⟨q, hq, hlast⟩, rfl, hprint.2.1, ?_, ?_⟩
  · rw [Page.newline, hprint.2.2, String.append_assoc]
  · intro rest
    have hread := readLine?_indented hset.pos hc htext (tokens?_spell (by simp) h.phrase)
      start.page.depth
    have hone :
        '\n' ∉ List.replicate (start.page.depth * unit) ' ' ++ (spell (p :: ps)).toList := by
      rw [List.mem_append, not_or]
      exact ⟨by simp, oneLine_spell h.phrase⟩
    have hne : List.replicate (start.page.depth * unit) ' ' ++ (spell (p :: ps)).toList ≠ [] := by
      rw [htext]
      simp
    have hsplit := readLines?_line hone hne hread rest
    rw [String.toList_append, String.toList_append, hset.toList_indentation]
    simpa [itemsLines, Item.lines] using hsplit

/-- The lines after a line, one unit deeper, stand under it. -/
theorem Sets.under (h : Sets set unit js [.mk ts []]) (hin : Sets set unit is xs) :
    Sets set unit (js ++ ([.indent] ++ is ++ [.dedent])) [.mk ts xs] := by
  intro p hp
  obtain ⟨q, s, hq, hcolumn, hdepth, hs, hread⟩ := h p hp
  let deeper : Pass := { q with page := q.page.indent }
  obtain ⟨r, t, hr, hcolumn', hdepth', ht, hread'⟩ := hin deeper hcolumn
  have hindent : perform set [.indent] q = { pass := deeper } := perform_singleton set .indent q
  have hinner : perform set ([.indent] ++ is ++ [.dedent]) q =
      { pass := { r with page := r.page.dedent } } :=
    perform_append_eq_pass.mpr
      ⟨r, perform_append_eq_pass.mpr ⟨deeper, hindent, hr⟩, perform_singleton set .dedent r⟩
  have hdeeper : deeper.page.depth = p.page.depth + 1 := by
    rw [← hdepth]
    rfl
  refine ⟨_, s ++ t, perform_append_eq_pass.mpr ⟨q, hq, hinner⟩, hcolumn', ?_, ?_, ?_⟩
  · simp only [Page.dedent]
    omega
  · rw [Page.dedent, ht, ← String.append_assoc, ← hs]
    rfl
  · intro rest
    rw [String.toList_append, List.append_assoc, hread, hread', hdeeper]
    simp [itemsLines, Item.lines, Function.comp_def]

/-- Instructions that print whole lines, which are read in front of a block. -/
def Reads (set : Settings) (unit : Nat) (is : List Instr) (a b : Block) : Prop :=
  ∃ items cs, Sets set unit is items ∧ clauses? items = some cs ∧ cs.foldrM Clause.before a = some b

theorem clauses?_append (hx : clauses? xs = some cs) (hy : clauses? ys = some ds) :
    clauses? (xs ++ ys) = some (cs ++ ds) := by
  induction xs generalizing cs with
  | nil =>
    rw [clauses?] at hx
    cases hx
    exact hy
  | cons x xs ih =>
    rw [clauses?] at hx
    obtain ⟨c, hc, hx⟩ := Option.bind_eq_some_iff.mp hx
    obtain ⟨cs', hcs, hx⟩ := Option.bind_eq_some_iff.mp hx
    cases hx
    rw [List.cons_append, clauses?, hc, ih hcs]
    rfl

theorem Reads.append (h : Reads set unit is b b') (hj : Reads set unit js a b) :
    Reads set unit (is ++ js) a b' := by
  obtain ⟨xs, cs, hsets, hcs, hfold⟩ := h
  obtain ⟨ys, ds, hsets', hds, hfold'⟩ := hj
  refine ⟨xs ++ ys, cs ++ ds, hsets.append hsets', clauses?_append hcs hds, ?_⟩
  rw [List.foldrM_append, hfold']
  exact hfold

/-- Instructions of which nothing is read. -/
theorem reads_of_sets_nil (h : Sets set unit is []) (a : Block) : Reads set unit is a a :=
  ⟨[], [], h, by rw [clauses?], rfl⟩

theorem reads_item (hs : Sets set unit is [.mk ts xs]) (hx : clauses? xs = some cs)
    (hb : block? cs = some body) (hc : readClause ts body = some c)
    (hbefore : c.before a = some b) :
    Reads set unit is a b := by
  refine ⟨[.mk ts xs], [c], hs, ?_, ?_⟩
  · rw [clauses?, Item.clause?, hx]
    simp [hb, hc, clauses?]
  · simp [hbefore]

/-- A line by itself. -/
theorem reads_line {last : Instr} (hset : Spaced set unit) (h : Says set is (p :: ps))
    (hp : p ≠ .space) (hl : last = .newline ∨ last = .endLine)
    (hc : readSimple (wording (p :: ps)) = some c) (hbefore : c.before a = some b) :
    Reads set unit (is ++ [last]) a b := by
  have hclause : readClause (wording (p :: ps)) [] = some c := hc
  exact reads_item (sets_line hset h hp hl) (by rw [clauses?]) rfl hclause hbefore

/-- A header and the lines under it. -/
theorem reads_suite (hset : Spaced set unit) (h : Says set js (p :: ps ++ [.symbol ":"]))
    (hp : p ≠ .space) (hin : Reads set unit is {} ⟨.none, body⟩) (hne : body ≠ [])
    (hc : readHeader body (wording (p :: ps)) = some c) (hbefore : c.before a = some b) :
    Reads set unit (js ++ suite is) a b := by
  obtain ⟨xs, cs, hsets, hcs, hfold⟩ := hin
  have hline := sets_line hset h hp (.inl rfl)
  have hunder := hline.under hsets
  have hsuite : js ++ suite is = js ++ [.newline] ++ ([.indent] ++ is ++ [.dedent]) := by
    simp [suite]
  have hblock : block? cs = some body := by rw [block?, hfold]
  have hclause : readClause (wording (p :: (ps ++ [.symbol ":"]))) body = some c := by
    have hwording : wording (p :: (ps ++ [.symbol ":"])) = wording (p :: ps) ++ [.symbol ":"] :=
      wording_append (p :: ps) [.symbol ":"]
    obtain ⟨s, ss, rfl⟩ := List.exists_cons_of_ne_nil hne
    rw [readClause, hwording, List.getLast?_concat, if_pos rfl, List.dropLast_concat, hc]
    simp
  rw [hsuite]
  exact reads_item hunder hcs hblock hclause hbefore

theorem Says.then_empty (h : Says set is ps) : Says set (is ++ [.text ""]) ps := by
  refine ⟨?_, h.phrase⟩
  have hputs := h.puts.append (puts_text set "")
  rwa [String.append_empty] at hputs

/-- A header and the lines under it, before an empty line. -/
theorem reads_block (hset : Spaced set unit) (h : Says set js (p :: ps ++ [.symbol ":"]))
    (hp : p ≠ .space) (hin : Reads set unit is {} ⟨.none, body⟩) (hne : body ≠ [])
    (hc : readHeader body (wording (p :: ps)) = some c) (hbefore : c.before a = some b) :
    Reads set unit (js ++ block is) a b := by
  have hsuite := reads_suite hset h.then_empty hp hin hne hc hbefore
  have hblock := hsuite.append (reads_of_sets_nil (sets_newline set unit) a)
  simpa [block] using hblock

/-- What is read from whole lines is read from their text. -/
theorem readStmts?_of_reads (h : Reads set unit is {} ⟨.none, body⟩) :
    (perform set is {}).failure = none ∧
      readStmts? unit (perform set is {}).pass.page.pending = some body := by
  obtain ⟨items, cs, hsets, hcs, hfold⟩ := h
  obtain ⟨q, text, hq, -, -, htext, hread⟩ := hsets {} rfl
  have hlines : readLines? unit text.toList = some (itemsLines 0 items) := by
    simpa [readLines?_nil] using hread []
  have hpending : q.page.pending = text := by simpa using htext
  rw [hq]
  refine ⟨rfl, ?_⟩
  rw [hpending, readStmts?, hlines]
  simp [nest_itemsLines, hcs, block?, hfold]

end CodePrinter.Python
