import CodePrinter.Proofs.Balance
import CodePrinter.Proofs.RebuiltTrees
import CodePrinter.Proofs.SnippetLines

/-! Trees without their locations.

A location begins the line that its node is printed on, so that nothing but indentation may stand on
a line where there would be none without it. Main statement: the lines on which something else
stands are the same (`codeLines_unlocated`). -/
namespace CodePrinter

namespace Text

def isIndent (c : Char) : Bool := c = ' ' || c = '\t'

/-- The lines of a text on which there is more than spaces and tabs. -/
def codeLines (text : String) : List (List Char) :=
  (text.toList.splitOn '\n').filter fun line => !line.all isIndent

/-- No line of a text is left open. -/
def EndsLine (text : String) : Prop := text = "" ∨ ∃ before, text = before ++ "\n"

theorem codeLines_of_all {text : String} (h : text.toList.all isIndent = true) :
    codeLines text = [] := by
  have hbreak : '\n' ∉ text.toList := by
    intro hm
    have := List.all_eq_true.mp h _ hm
    contradiction
  rw [codeLines, List.splitOn_eq_singleton hbreak]
  simp [h]

@[simp] theorem codeLines_empty : codeLines "" = [] := codeLines_of_all (by simp)

/-- Lines that end are counted apart from what comes after them. -/
theorem codeLines_append {s : String} (h : EndsLine s) (t : String) :
    codeLines (s ++ t) = codeLines s ++ codeLines t := by
  rcases h with rfl | ⟨before, rfl⟩
  · simp
  · have hsplit (text : String) : codeLines (before ++ "\n" ++ text) =
        codeLines before ++ codeLines text := by
      simp [codeLines, List.splitOn_append_cons_self]
    have hbefore := hsplit ""
    rw [String.append_empty, codeLines_empty, List.append_nil] at hbefore
    rw [hsplit, hbefore]

theorem EndsLine.newline (text : String) : EndsLine (text ++ "\n") := .inr ⟨text, rfl⟩

theorem codeLines_newline (text : String) : codeLines (text ++ "\n") = codeLines text := by
  simp [codeLines, List.splitOn_append_cons_self]

end Text

open Text

namespace Page

variable {p q : Page} {before line unit : String}

/-- The indentation is made of spaces and tabs. -/
def BlankUnit (unit : String) : Prop := ∀ c ∈ unit.toList, isIndent c = true

theorem codeLines_indentation (hu : BlankUnit unit) (depth : Nat) :
    codeLines (indentation unit depth) = [] := by
  refine codeLines_of_all (List.all_eq_true.mpr fun c hc => ?_)
  rw [indentation, String.toList_join] at hc
  obtain ⟨cs, hcs, hm⟩ := List.mem_flatMap.mp hc
  obtain rfl := List.eq_of_mem_replicate hcs
  exact hu c hm

/-- The text of a page, up to the line at hand and on it. -/
structure Split (p : Page) (before line : String) : Prop where
  pending : p.pending = before ++ line
  ends : EndsLine before
  column : p.column = width line
  hasText : p.hasText = true → line ≠ ""

namespace Split

theorem column_eq_zero (h : p.Split before line) : p.column = 0 ↔ line = "" := by
  rw [h.column, width_eq_zero]

theorem startLine (h : p.Split before line) (unit : String) :
    (p.startLine unit).Split before (if line = "" then indentation unit p.depth else line) := by
  by_cases hl : line = ""
  · subst line
    have htext : p.hasText = false := by simpa using h.hasText
    rw [Page.startLine, if_pos (h.column_eq_zero.mpr rfl), if_pos rfl]
    refine ⟨?_, h.ends, rfl, ?_⟩
    · simp [h.pending]
    · simp [htext]
  · rw [Page.startLine, if_neg (mt h.column_eq_zero.mp hl), if_neg hl]
    exact h

theorem print (h : (p.startLine unit).Split before line) (text : String) :
    (p.print unit text).Split before (line ++ text) := by
  refine ⟨?_, h.ends, ?_, ?_⟩
  · rw [Page.print, h.pending, String.append_assoc]
  · rw [Page.print, h.column, width_append]
  · intro htext hempty
    obtain ⟨rfl, rfl⟩ := String.append_eq_empty_iff.mp hempty
    have hnone : (p.startLine unit).hasText = false := by simpa using h.hasText
    simp [Page.print, hnone] at htext

theorem newline (h : p.Split before line) : p.newline.Split (before ++ line ++ "\n") "" := by
  refine ⟨?_, .newline _, ?_, ?_⟩
  · simp [Page.newline, h.pending]
  · simp [Page.newline]
  · simp [Page.newline]

/-- A line feed ends the line at hand, and adds it to the lines of code if it is one. -/
theorem codeLines_newline (h : p.Split before line) :
    codeLines (before ++ line ++ "\n") = codeLines before ++ codeLines line := by
  rw [Text.codeLines_newline, codeLines_append h.ends]

end Split

/-- Two pages with the same line at hand, after the same lines of code. -/
structure SameLine (p q : Page) : Prop where
  depth : p.depth = q.depth
  hasText : p.hasText = q.hasText
  lines : ∃ a b line, p.Split a line ∧ q.Split b line ∧ codeLines a = codeLines b

/-- The line at hand is indented on one page, and nothing stands on it on the other. -/
structure Ahead (unit : String) (p q : Page) : Prop where
  depth : p.depth = q.depth
  hasText : p.hasText = q.hasText
  lines : ∃ a b, p.Split a (indentation unit p.depth) ∧ q.Split b "" ∧ codeLines a = codeLines b

/-- Two pages with the same lines of code, also after the same is printed on both. -/
def SameCode (unit : String) (p q : Page) : Prop := p.SameLine q ∨ p.Ahead unit q

theorem sameLine_empty : SameLine {} {} := by
  have hsplit : Split {} "" "" := ⟨rfl, .inl rfl, rfl, by simp⟩
  exact ⟨rfl, rfl, "", "", "", hsplit, hsplit, rfl⟩

/-- Where the two lines at hand are the same, the indentation may change. -/
theorem SameLine.atDepth (h : p.SameLine q) (depth : Nat) :
    SameLine { p with depth } { q with depth } := by
  obtain ⟨a, b, line, hp, hq, hab⟩ := h.lines
  exact ⟨rfl, h.hasText, a, b, line, ⟨hp.pending, hp.ends, hp.column, hp.hasText⟩,
    ⟨hq.pending, hq.ends, hq.column, hq.hasText⟩, hab⟩

theorem SameLine.indent (h : p.SameLine q) : p.indent.SameLine q.indent := by
  rw [Page.indent, Page.indent, h.depth]
  exact h.atDepth _

theorem SameLine.dedent (h : p.SameLine q) : p.dedent.SameLine q.dedent := by
  rw [Page.dedent, Page.dedent, h.depth]
  exact h.atDepth _

namespace SameCode

theorem depth (h : SameCode unit p q) : p.depth = q.depth := by
  rcases h with h | h
  · exact h.depth
  · exact h.depth

theorem hasText (h : SameCode unit p q) : p.hasText = q.hasText := by
  rcases h with h | h
  · exact h.hasText
  · exact h.hasText

/-- Once it is begun on both pages, the line at hand is the same. -/
theorem startLine (h : SameCode unit p q) : (p.startLine unit).SameLine (q.startLine unit) := by
  have hdepth : (p.startLine unit).depth = (q.startLine unit).depth := by
    rw [depth_startLine, depth_startLine, h.depth]
  have htext : (p.startLine unit).hasText = (q.startLine unit).hasText := by
    rw [hasText_startLine, hasText_startLine, h.hasText]
  rcases h with ⟨hd, -, a, b, line, hp, hq, hab⟩ | ⟨hd, -, a, b, hp, hq, hab⟩
  · have hq' := hq.startLine unit
    rw [← hd] at hq'
    exact ⟨hdepth, htext, a, b, _, hp.startLine unit, hq', hab⟩
  · have hp' := hp.startLine unit
    have hq' := hq.startLine unit
    rw [ite_self] at hp'
    rw [if_pos rfl, ← hd] at hq'
    exact ⟨hdepth, htext, a, b, _, hp', hq', hab⟩

theorem print (h : SameCode unit p q) (text : String) :
    (p.print unit text).SameLine (q.print unit text) := by
  obtain ⟨hdepth, htext, a, b, line, hp, hq, hab⟩ := h.startLine
  refine ⟨hdepth, ?_, a, b, line ++ text, hp.print text, hq.print text, hab⟩
  rw [Page.print, Page.print, htext]

theorem newline (hu : BlankUnit unit) (h : SameCode unit p q) : p.newline.SameLine q.newline := by
  rcases h with ⟨hd, -, a, b, line, hp, hq, hab⟩ | ⟨hd, -, a, b, hp, hq, hab⟩
  · refine ⟨hd, rfl, _, _, "", hp.newline, hq.newline, ?_⟩
    rw [hp.codeLines_newline, hq.codeLines_newline, hab]
  · refine ⟨hd, rfl, _, _, "", hp.newline, hq.newline, ?_⟩
    rw [hp.codeLines_newline, hq.codeLines_newline, hab, codeLines_indentation hu, codeLines_empty]

theorem endLine (hu : BlankUnit unit) (h : SameCode unit p q) : p.endLine.SameLine q.endLine := by
  have hnewline := h.newline hu
  rcases h with h | h
  · obtain ⟨a, b, line, hp, hq, hab⟩ := h.lines
    rw [Page.endLine, Page.endLine, hp.column, hq.column]
    split
    · exact h
    · exact hnewline
  · obtain ⟨hd, htext, a, b, hp, hq, hab⟩ := h
    rw [Page.endLine, Page.endLine, if_pos (hq.column_eq_zero.mpr rfl)]
    split
    · -- There is no indentation here, so that nothing stands on either line.
      rename_i hcolumn
      rw [hp.column_eq_zero.mp hcolumn] at hp
      exact ⟨hd, htext, a, b, "", hp, hq, hab⟩
    · -- The line with the indentation ends, and it is no line of code.
      have hnone : q.hasText = false := by simpa using hq.hasText
      refine ⟨hd, hnone.symm, _, b, "", hp.newline, hq, ?_⟩
      rw [hp.codeLines_newline, hab, codeLines_indentation hu, List.append_nil]

/-- Beginning the line on the first page alone changes no line of code. -/
theorem startLine_left (h : SameCode unit p q) : SameCode unit (p.startLine unit) q := by
  have hdepth : (p.startLine unit).depth = q.depth := by rw [depth_startLine, h.depth]
  have htext : (p.startLine unit).hasText = q.hasText := by rw [hasText_startLine, h.hasText]
  rcases h with ⟨-, -, a, b, line, hp, hq, hab⟩ | ⟨-, -, a, b, hp, hq, hab⟩
  · have hp' := hp.startLine unit
    by_cases hl : line = ""
    · subst line
      rw [if_pos rfl, ← depth_startLine unit p] at hp'
      exact .inr ⟨hdepth, htext, a, b, hp', hq, hab⟩
    · rw [if_neg hl] at hp'
      exact .inl ⟨hdepth, htext, a, b, line, hp', hq, hab⟩
  · have hp' := hp.startLine unit
    rw [ite_self, ← depth_startLine unit p] at hp'
    exact .inr ⟨hdepth, htext, a, b, hp', hq, hab⟩

theorem codeLines_pending (hu : BlankUnit unit) (h : SameCode unit p q) :
    codeLines p.pending = codeLines q.pending := by
  rcases h with ⟨-, -, a, b, line, hp, hq, hab⟩ | ⟨-, -, a, b, hp, hq, hab⟩
  · rw [hp.pending, hq.pending, codeLines_append hp.ends, codeLines_append hq.ends, hab]
  · rw [hp.pending, hq.pending, codeLines_append hp.ends, codeLines_append hq.ends, hab,
      codeLines_indentation hu, codeLines_empty]

theorem congruent (hu : BlankUnit unit) : Congruent unit (SameCode unit) where
  hasText h := h.hasText
  print text h := .inl (h.print text)
  newline h := .inl (h.newline hu)
  endLine h := .inl (h.endLine hu)
  indent h := .inl (h.newline hu).indent
  dedent h := ⟨.inl (h.newline hu).dedent, .inl (h.endLine hu).dedent⟩

end SameCode

end Page

/-- Passes whose pages have the same lines of code, where nothing is mapped by the second. -/
abbrev Pass.SameCode (set : Settings) : Pass → Pass → Prop :=
  Pass.Related (Page.SameCode set.indent) fun _ unlocated => unlocated = []

/-- A location that goes on without failing only begins the line. -/
theorem Tracks.markAt_none (set : Settings) (loc : Option Location) :
    Tracks set (Pass.SameCode set) (markAt loc) [] := by
  cases loc with
  | none => exact nil _
  | some loc =>
    intro p q p' h hp
    rw [markAt, perform_singleton, Instr.perform, Pass.mark_eq] at hp
    obtain ⟨rfl, -⟩ := Outcome.mk.inj hp
    exact ⟨q, perform_nil set q, h.page.startLine_left, h.mappings, h.cache⟩

theorem unlocated_keeps {set : Settings} (hu : Page.BlankUnit set.indent) :
    Rebuild.unlocated.Keeps set.names (Tracks set (Pass.SameCode set)) :=
  (congruence_tracks (Page.SameCode.congruent hu)).keeps_unlocated (Tracks.markAt_none set)
    fun what loc => .problem what loc none

/-- Without their locations, statements that can be printed still can. Nothing is mapped then, and
the lines of code are the same. -/
theorem codeLines_unlocated {set : Settings} (hu : ∀ c ∈ set.indent.toList, c = ' ' ∨ c = '\t')
    (ss : List Stmt) (cache : Template.Cache)
    (hp : (renderStmts set ss { cache }).failure = none) :
    (renderStmts set (rebuildStmts .unlocated ss) { cache }).failure = none ∧
      (renderStmts set (rebuildStmts .unlocated ss) { cache }).pass.mappings = [] ∧
      codeLines (renderStmts set (rebuildStmts .unlocated ss) { cache }).pass.page.pending =
        codeLines (renderStmts set ss { cache }).pass.page.pending := by
  have hunit : Page.BlankUnit set.indent := fun c hc => by simpa [isIndent] using hu c hc
  have hprinted : Tracks set (Pass.SameCode set) (stmtsInstrs set ss)
      (stmtsInstrs set (rebuildStmts .unlocated ss)) :=
    (Tree.stmts ss).rebuild_alike (congruence_tracks (Page.SameCode.congruent hunit))
      (unlocated_keeps hunit)
  obtain ⟨hfailure, hsame⟩ := hprinted.run ⟨.inl Page.sameLine_empty, rfl, rfl⟩ hp
  exact ⟨hfailure, hsame.mappings, (hsame.page.codeLines_pending hunit).symm⟩

/-- Statements that print nothing leave a line with indentation behind, if they have a location. -/
theorem codeLines_unlocated_loop :
    let set : Settings := { indent := "\t ", maps := .keep }
    let ss : List Stmt := [.functionDef "f" (.mk [] [] none [])
      [.importNames [] (some (.span 2 4)),
        .whileLoop (.name "x" (some (.span 3 10))) [.globalNames [] (some (.span 4 8))]
          (some (.span 3 4))] [] none (some (.span 1 0))]
    (renderStmts set ss {}).pass.page.pending = "def f():\n\t \n\t while x:\n\t \t \n\n" ∧
      (renderStmts set (rebuildStmts .unlocated ss) {}).pass.page.pending =
        "def f():\n\t while x:\n\n" ∧
      (∀ c ∈ set.indent.toList, c = ' ' ∨ c = '\t') ∧ (renderStmts set ss {}).failure = none ∧
      (renderStmts set (rebuildStmts .unlocated ss) {}).failure = none ∧
      (renderStmts set (rebuildStmts .unlocated ss) {}).pass.mappings = [] ∧
      codeLines (renderStmts set (rebuildStmts .unlocated ss) {}).pass.page.pending =
        codeLines (renderStmts set ss {}).pass.page.pending := by
  intro set ss
  have hunit : set.indent.toList.all isIndent = true := by decide +kernel
  have hu : ∀ c ∈ set.indent.toList, c = ' ' ∨ c = '\t' := by
    intro c hc
    simpa [isIndent] using List.all_eq_true.mp hunit c hc
  have hp : (renderStmts set ss {}).failure = none := by decide +kernel
  exact ⟨by decide +kernel, by decide +kernel, hu, hp, codeLines_unlocated hu ss {} hp⟩

end CodePrinter
