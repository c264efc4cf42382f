import CodePrinter.Proofs.Locations
import CodePrinter.Proofs.SeparateRuns

/-! Statements at any depth of indentation.

Main statement: statements without locations print the same lines at every depth, with the
indentation of that depth before each line that is not empty (`renderStmts_indented`). -/
namespace CodePrinter

open Text

namespace Text

def indentLine (margin line : String) : String :=
  if line = "" then "" else margin ++ line

/-- A text with a margin before every line that is not empty. -/
def indentLines (margin text : String) : String :=
  "\n".intercalate ((text.toList.splitOn '\n').map fun line => indentLine margin (.ofList line))

example : indentLines "  " "if x:\n  y\n\n" = "  if x:\n    y\n\n" := by decide +kernel

variable {margin line s t : String}

theorem indentLines_of_oneLine (h : OneLine line) (hne : line ≠ "") :
    indentLines margin line = margin ++ line := by
  rw [indentLines, List.splitOn_eq_singleton h]
  simp [indentLine, hne]

@[simp] theorem indentLines_empty (margin : String) : indentLines margin "" = "" := by
  simp [indentLines, indentLine]

theorem indentLines_newline_append (margin s t : String) :
    indentLines margin (s ++ "\n" ++ t) = indentLines margin s ++ "\n" ++ indentLines margin t := by
  have hsplit : (s ++ "\n" ++ t).toList.splitOn '\n' =
      s.toList.splitOn '\n' ++ t.toList.splitOn '\n' := by
    simp [List.splitOn_append_cons_self]
  rw [indentLines, hsplit, List.map_append,
    String.intercalate_append_of_ne_nil (by simp) (by simp)]
  rfl

theorem indentLines_newline (margin s : String) :
    indentLines margin (s ++ "\n") = indentLines margin s ++ "\n" := by
  have h := indentLines_newline_append margin s ""
  rwa [String.append_empty, indentLines_empty, String.append_empty] at h

/-- Lines that end get their margin apart from what comes after them. -/
theorem indentLines_append (h : EndsLine s) (t : String) :
    indentLines margin (s ++ t) = indentLines margin s ++ indentLines margin t := by
  rcases h with rfl | ⟨before, rfl⟩
  · simp
  · rw [indentLines_newline_append, indentLines_newline]

theorem indentLines_eq_empty (h : OneLine line) : indentLines margin line = "" ↔ line = "" := by
  by_cases hne : line = ""
  · simp [hne]
  · simp [indentLines_of_oneLine h hne, hne]

end Text

mutual

/-- An instruction that records no location. -/
def Instr.Unmarked : Instr → Prop
  | .mark _ => False
  | .template _ fill => ∀ parts, unmarkedInstrs (fill parts)
  | _ => True

def unmarkedInstrs : List Instr → Prop
  | [] => True
  | i :: is => i.Unmarked ∧ unmarkedInstrs is

end

theorem unmarked_append {is js : List Instr} :
    unmarkedInstrs (is ++ js) ↔ unmarkedInstrs is ∧ unmarkedInstrs js := by
  induction is with
  | nil => simp [unmarkedInstrs]
  | cons i is ih => simp [unmarkedInstrs, ih, and_assoc]

theorem congruence_unmarked : Congruence fun _ js => unmarkedInstrs js where
  nil := by simp [unmarkedInstrs]
  append h h' := unmarked_append.mpr ⟨h, h'⟩
  plain := by
    intro i hi
    cases i with
    | text | newline | endLine | snippetLine | fail => simp [unmarkedInstrs, Instr.Unmarked]
    | _ => cases hi
  template h := by simpa [unmarkedInstrs, Instr.Unmarked] using h
  nested := by
    rintro _ js last (rfl | rfl) h <;> simp [unmarked_append, unmarkedInstrs, Instr.Unmarked, h]

theorem unmarked_stmts (set : Settings) {ss : List Stmt} (h : rebuildStmts .unlocated ss = ss) :
    unmarkedInstrs (stmtsInstrs set ss) := by
  have hrebuilt : unmarkedInstrs (stmtsInstrs set (rebuildStmts .unlocated ss)) :=
    (Tree.stmts ss).rebuild_alike congruence_unmarked (congruence_unmarked.keeps_unlocated
      (fun _ => by simp [unmarkedInstrs]) (fun _ _ => by simp [unmarkedInstrs, Instr.Unmarked]))
  rwa [h] at hrebuilt

namespace Page

variable {unit : String} {p q : Page}

/-- A relation between pages that is kept by whatever is printed on both, as long as there is
something in it and no line feed. -/
structure SolidCongruent (unit : String) (r : Page → Page → Prop) : Prop where
  hasText {p q : Page} : r p q → p.hasText = q.hasText
  print {p q : Page} {text : String} :
    Solid text → r p q → r (p.print unit text) (q.print unit text)
  newline {p q : Page} : r p q → r p.newline q.newline
  endLine {p q : Page} : r p q → r p.endLine q.endLine
  indent {p q : Page} : r p q → r p.indent q.indent
  dedent {p q : Page} : 0 < p.depth → 0 < q.depth → r p q → r p.dedent q.dedent

namespace SolidCongruent

variable {r : Page → Page → Prop}

theorem flip (hr : SolidCongruent unit r) : SolidCongruent unit (flip r) where
  hasText h := (hr.hasText h).symm
  print ht h := hr.print ht h
  newline h := hr.newline h
  endLine h := hr.endLine h
  indent h := hr.indent h
  dedent hp hq h := hr.dedent hq hp h

theorem snippetLine (hr : SolidCongruent unit r) {text : String} (ht : OneLine text) (more : Bool)
    (h : r p q) : r (p.snippetLine unit text more) (q.snippetLine unit text more) := by
  simp only [Page.snippetLine, hr.hasText h]
  have hvalue : OneLine (if q.hasText then text else String.ofList (trimStart text.toList)) := by
    split
    · exact ht
    · exact oneLine_trimStart ht
  generalize (if q.hasText then text else String.ofList (trimStart text.toList)) = value at hvalue ⊢
  split
  · exact h
  · rename_i hne
    have hprint := hr.print ⟨hne, hvalue⟩ h
    split
    · exact hr.newline hprint
    · exact hprint

end SolidCongruent

/-- A page ends with a line, which is the line at hand. -/
structure Stands (p : Page) (before line : String) : Prop where
  pending : p.pending = before ++ line
  column : p.column = width line

namespace Stands

variable {before line text : String}

theorem column_eq_zero (h : p.Stands before line) : p.column = 0 ↔ line = "" := by
  rw [h.column, width_eq_zero]

theorem print (h : p.Stands before line) (unit text : String) : (p.print unit text).Stands before
    ((if line = "" then indentation unit p.depth else line) ++ text) := by
  by_cases hl : line = ""
  · subst hl
    have hcolumn := h.column_eq_zero.mpr rfl
    constructor
    · simp [Page.print, Page.startLine, hcolumn, h.pending, String.append_assoc]
    · simp [Page.print, Page.startLine, hcolumn]
  · have hcolumn := mt h.column_eq_zero.mp hl
    rw [if_neg hl, Page.print, Page.startLine, if_neg hcolumn]
    constructor
    · simp only [h.pending, String.append_assoc]
    · simp only [h.column, width_append]

theorem newline (h : p.Stands before line) : p.newline.Stands (before ++ line ++ "\n") "" := by
  constructor
  · simp [Page.newline, h.pending]
  · simp [Page.newline]

end Stands

/-- The second page has the lines of the first one with a margin before them, below a text that was
there before, and is deeper by the margin. -/
structure Shifted (unit start : String) (extra : Nat) (p q : Page) : Prop where
  depth : q.depth = extra + p.depth
  hasText : p.hasText = q.hasText
  lines : ∃ before line, EndsLine before ∧ OneLine line ∧ p.Stands before line ∧
    q.Stands (start ++ indentLines (indentation unit extra) before)
      (indentLines (indentation unit extra) line)

theorem indentation_add (unit : String) (m n : Nat) :
    indentation unit (m + n) = indentation unit m ++ indentation unit n := by
  rw [indentation, List.replicate_add, String.join_append]
  rfl

namespace Shifted

variable {start : String} {extra : Nat}

theorem print (hu : OneLine unit) {text : String} (ht : Solid text)
    (h : Shifted unit start extra p q) :
    Shifted unit start extra (p.print unit text) (q.print unit text) := by
  obtain ⟨before, line, hbefore, hline, hp, hq⟩ := h.lines
  have hp' := hp.print unit text
  have hq' := hq.print unit text
  generalize hbegun : (if line = "" then indentation unit p.depth else line) = begun at hp'
  have hone : OneLine begun := by
    rw [← hbegun]
    split
    · exact oneLine_indentation hu _
    · exact hline
  have hmore : OneLine (begun ++ text) := oneLine_append.mpr ⟨hone, ht.2⟩
  have hne : begun ++ text ≠ "" := by
    intro he
    exact ht.1 (String.append_eq_empty_iff.mp he).2
  -- the line is begun on both pages or on none
  have hshift : (if indentLines (indentation unit extra) line = "" then indentation unit q.depth
      else indentLines (indentation unit extra) line) = indentation unit extra ++ begun := by
    rw [← hbegun, h.depth, indentation_add]
    by_cases hl : line = ""
    · simp [hl]
    · simp [indentLines_of_oneLine hline, hl]
  rw [hshift, String.append_assoc, ← indentLines_of_oneLine hmore hne] at hq'
  refine ⟨?_, ?_, before, _, hbefore, hmore, hp', hq'⟩
  · rw [depth_print, depth_print, h.depth]
  · rw [Page.print, Page.print, hasText_startLine, hasText_startLine, h.hasText]

theorem newline (h : Shifted unit start extra p q) :
    Shifted unit start extra p.newline q.newline := by
  obtain ⟨before, line, hbefore, hline, hp, hq⟩ := h.lines
  have hq' := hq.newline
  refine ⟨h.depth, rfl, _, "", .newline _, by decide, hp.newline, ?_⟩
  rw [indentLines_newline, indentLines_append hbefore, indentLines_empty]
  simpa only [String.append_assoc] using hq'

theorem endLine (h : Shifted unit start extra p q) :
    Shifted unit start extra p.endLine q.endLine := by
  have hnewline := h.newline
  obtain ⟨before, line, hbefore, hline, hp, hq⟩ := h.lines
  by_cases hl : line = ""
  · rw [Page.endLine, if_pos (hp.column_eq_zero.mpr hl), Page.endLine,
      if_pos (hq.column_eq_zero.mpr ((indentLines_eq_empty hline).mpr hl))]
    exact h
  · rw [Page.endLine, if_neg (mt hp.column_eq_zero.mp hl), Page.endLine,
      if_neg (mt hq.column_eq_zero.mp (mt (indentLines_eq_empty hline).mp hl))]
    exact hnewline

/-- The depth of both pages may change alike. -/
theorem atDepth (h : Shifted unit start extra p q) (n : Nat) :
    Shifted unit start extra { p with depth := n } { q with depth := extra + n } := by
  obtain ⟨before, line, hbefore, hline, hp, hq⟩ := h.lines
  exact ⟨rfl, h.hasText, before, line, hbefore, hline, ⟨hp.pending, hp.column⟩,
    ⟨hq.pending, hq.column⟩⟩

theorem congruent (hu : OneLine unit) : SolidCongruent unit (Shifted unit start extra) where
  hasText h := h.hasText
  print ht h := h.print hu ht
  newline h := h.newline
  endLine h := h.endLine
  indent {p q} h := by
    have hdepth : q.depth + 1 = extra + (p.depth + 1) := by
      have := h.depth
      omega
    rw [Page.indent, Page.indent, hdepth]
    exact h.atDepth _
  dedent {p q} hp _ h := by
    have hdepth : q.depth - 1 = extra + (p.depth - 1) := by
      have := h.depth
      omega
    rw [Page.dedent, Page.dedent, hdepth]
    exact h.atDepth _

end Shifted

end Page

/-- Every indentation of what is put together from pieces is taken back. -/
theorem Pieced.balanced {set : Settings} {ok : String → Prop} {ns : List Node} {is : List Instr}
    (h : Pieced set ok ns is) : Balanced is := by
  induction h with
  | nil => exact .nil
  | append _ _ ihi ihj => exact ihi.append ihj
  | names | header => exact .append (.flat rfl) (.flat rfl)
  | @suite _ is _ ih =>
    change Balanced ([.newline] ++ (.indent :: is ++ [.dedent]))
    exact .append (.flat rfl) (.nested ih)
  | template _ ih => exact .template ih
  | node hn _ ih =>
    rw [hn]
    exact .append (.mark _) ih
  | _ => exact .flat rfl

/-- A suite keeps what its inside keeps: there is an indentation to take back on both pages. -/
theorem Tracks.suite {set : Settings} {r : Page → Page → Prop} {is : List Instr}
    (hr : Page.SolidCongruent set.indent r) (hb : Balanced is)
    (h : Tracks set (Pass.Related r fun _ _ => True) is is) :
    Tracks set (Pass.Related r fun _ _ => True) (suite is) (suite is) := by
  have hopen : Tracks set (Pass.Related r fun _ _ => True) [.newline, .indent]
      [.newline, .indent] :=
    .onPage (f := fun p => p.newline.indent) (fun _ => rfl) fun _ _ h => hr.indent (hr.newline h)
  have hdeep : ∀ p p', perform set ([.newline, .indent] ++ is) p = { pass := p' } →
      0 < p'.page.depth := by
    intro p p' hp
    obtain ⟨p₁, hp₁, hbody⟩ := perform_append_eq_pass.mp hp
    obtain rfl : { p with page := p.page.newline.indent } = p₁ := (Outcome.mk.inj hp₁).1
    rw [hb.depth hbody]
    exact Nat.succ_pos _
  intro p q p' hpq hp
  obtain ⟨p₁, hp₁, hlast⟩ := perform_append_eq_pass.mp hp
  obtain ⟨q₁, hq₁, hrelated⟩ := (hopen.append h) p q p₁ hpq hp₁
  rw [perform_singleton] at hlast
  cases hlast
  exact ⟨_, perform_append_eq_pass.mpr ⟨q₁, hq₁, perform_singleton set .dedent q₁⟩,
    hr.dedent (hdeep p p₁ hp₁) (hdeep q q₁ hq₁) hrelated.page, trivial, hrelated.cache⟩

/-- A relation between pages that is kept by texts of one line is kept by what is put together from
pieces, if it records no location. -/
theorem Pieced.tracks {set set' : Settings} {r : Page → Page → Prop} {ns : List Node}
    {is : List Instr} (hr : Page.SolidCongruent set.indent r) (h : Pieced set' Solid ns is)
    (hm : unmarkedInstrs is) :
    Tracks set (Pass.Related r fun _ _ => True) is is := by
  have hprint : ∀ value, Solid value →
      Tracks set (Pass.Related r fun _ _ => True) [.text value] [.text value] := by
    intro value hv
    exact .onPage (perform_singleton set _) fun _ _ => hr.print hv
  -- texts that follow each other are printed as one
  have hprints : ∀ value more, Solid value → OneLine more →
      Tracks set (Pass.Related r fun _ _ => True) [.text value, .text more]
        [.text value, .text more] := by
    intro value more hv hmore
    have hboth : Solid (value ++ more) :=
      ⟨fun he => hv.1 (String.append_eq_empty_iff.mp he).1, oneLine_append.mpr ⟨hv.2, hmore⟩⟩
    refine .onPage (f := fun p => p.print set.indent (value ++ more)) ?_ fun _ _ => hr.print hboth
    intro p
    rw [Pass.onPage, ← Page.print_print]
    rfl
  induction h with
  | nil => exact .nil _
  | append _ _ ihi ihj =>
    obtain ⟨hi, hj⟩ := unmarked_append.mp hm
    exact (ihi hi).append (ihj hj)
  | text h | name h => exact hprint _ h
  | names hk h =>
    exact hprints _ _ hk (oneLine_intercalate (by decide) fun value hv => (h value hv).2)
  | header h => exact hprints _ _ h (by decide)
  | newline => exact .onPage (perform_singleton set _) fun _ _ => hr.newline
  | endLine => exact .onPage (perform_singleton set _) fun _ _ => hr.endLine
  | @suite _ is h ih =>
    have hinner : unmarkedInstrs is := (unmarked_append.mp (unmarked_append.mp hm).1).2
    exact .suite hr h.balanced (ih hinner)
  | snippetLine h => exact .onPage (perform_singleton set _) fun _ _ => hr.snippetLine h _
  | template _ ih =>
    simp only [unmarkedInstrs, Instr.Unmarked, and_true] at hm
    exact .template fun parts => ih parts (hm parts)
  | problem => exact .problem _ _ _
  | fail =>
    intro p q p' hpq hp
    rw [perform_singleton, Instr.perform] at hp
    cases hp
  | @node n _ own hn ho ih =>
    rw [hn] at hm ⊢
    cases hl : n.loc with
    | none =>
      rw [hl] at hm
      exact ih hm
    | some loc =>
      rw [hl] at hm
      simp [markAt, unmarkedInstrs, Instr.Unmarked] at hm

/-- The names that statements are printed with meet a condition, with those of run-time helpers and
the paths of modules among them. Other names of helpers and modules may be anything: there are
settings in which they all meet the condition, and the same is printed. -/
def PrintedNames (set : Settings) (ok : String → Prop) (ss : List Stmt) : Prop :=
  ∃ set' : Settings, set'.names.All ok ∧ stmtsAllNames set' ok ss ∧
    stmtsInstrs set' ss = stmtsInstrs set ss

theorem PrintedNames.tracks {set : Settings} {ss : List Stmt} {r : Page → Page → Prop}
    (hn : PrintedNames set Solid ss) (hl : rebuildStmts .unlocated ss = ss)
    (hr : Page.SolidCongruent set.indent r) :
    Tracks set (Pass.Related r fun _ _ => True) (stmtsInstrs set ss) (stmtsInstrs set ss) := by
  obtain ⟨set', hnames, hall, hsame⟩ := hn
  have hpieces := stmts_pieced hnames ss hall
  rw [hsame] at hpieces
  exact hpieces.tracks hr (unmarked_stmts set hl)

/-- A page with nothing on the line at hand is an empty one, below what is there and deeper. -/
theorem Page.Tidy.shifted {p : Page} (h : p.Tidy) (hcolumn : p.column = 0) (unit : String) :
    Shifted unit p.pending p.depth {} p := by
  refine ⟨rfl, (h hcolumn).symm, "", "", .inl rfl, by decide, ⟨rfl, by simp⟩, ?_⟩
  rw [indentLines_empty]
  exact ⟨by simp, by simp [hcolumn]⟩

/-- Statements without locations that begin at column 0 are printed at every depth or at none. They
print the text of depth 0 with the indentation of their depth before each line that is not empty,
and end at column 0 and as deep as they began. -/
theorem renderStmts_indented {set : Settings} {ss : List Stmt} {p : Pass}
    (hi : OneLine set.indent) (hl : rebuildStmts .unlocated ss = ss)
    (hn : PrintedNames set Solid ss) (hcolumn : p.page.column = 0) (hp : p.page.Tidy)
    (hc : p.cache.Sound) :
    ((renderStmts set ss p).failure = none ↔ (renderStmts set ss {}).failure = none) ∧
    ((renderStmts set ss p).failure = none →
      (renderStmts set ss p).pass.page.pending = p.page.pending ++
        indentLines (Page.indentation set.indent p.page.depth)
          (renderStmts set ss {}).pass.page.pending ∧
      (renderStmts set ss p).pass.page.column = 0 ∧
      (renderStmts set ss p).pass.page.depth = p.page.depth) := by
  have hstart : Pass.Related (Page.Shifted set.indent p.page.pending p.page.depth)
      (fun _ _ => True) { cache := p.cache } p :=
    ⟨hp.shifted hcolumn set.indent, trivial, rfl⟩
  have hstart' : Pass.Related (flip (Page.Shifted set.indent p.page.pending p.page.depth))
      (fun _ _ => True) p { cache := p.cache } := ⟨hstart.page, trivial, rfl⟩
  have hr : Page.SolidCongruent set.indent
      (Page.Shifted set.indent p.page.pending p.page.depth) := Page.Shifted.congruent hi
  have hstore := renderStmts_store set hc Template.Cache.sound_empty ss
  have hfailure : (renderStmts set ss { cache := p.cache }).failure =
      (renderStmts set ss {}).failure := congrArg (·.failure) hstore
  have hpending : (renderStmts set ss { cache := p.cache }).pass.page.pending =
      (renderStmts set ss {}).pass.page.pending := congrArg (·.pass.page.pending) hstore
  rw [← hfailure, ← hpending]
  refine ⟨⟨fun h => ((hn.tracks hl hr.flip).run hstart' h).1,
    fun h => ((hn.tracks hl hr).run hstart h).1⟩, ?_⟩
  intro h
  obtain ⟨-, hrelated⟩ := (hn.tracks hl hr.flip).run hstart' h
  have hshift : Page.Shifted set.indent p.page.pending p.page.depth
      (renderStmts set ss { cache := p.cache }).pass.page (renderStmts set ss p).pass.page :=
    hrelated.page
  obtain ⟨before, line, hbefore, -, hshallow, hdeep⟩ := hshift.lines
  have hrun : perform set (stmtsInstrs set ss) p = { pass := (renderStmts set ss p).pass } := by
    rw [← h]
    rfl
  refine ⟨?_, (stmts_end ss ⟨hcolumn, hp hcolumn⟩ hrun).1, (stmts_balanced set ss).depth hrun⟩
  rw [hshallow.pending, hdeep.pending, indentLines_append hbefore, String.append_assoc]

/-- A dictionary, a snippet of two lines and an `elif` part, two tabs deep. -/
theorem renderStmts_indented_nested :
    let set : Settings := { indent := "\t" }
    let ss : List Stmt :=
      [.conditional (.name "a") [.expr (.dict [.name "k"] [.name "v"])]
        [.conditional (.name "b") [.expr (.emit "x\n  y" [])] []]]
    let p : Pass := { page := { pending := "z\n", line := 2, depth := 2 } }
    (renderStmts set ss {}).pass.page.pending =
      "if a:\n\t\x7b\n\t\tk: v\n\t\x7d\n\nelif b:\n\tx\n\ty\n\n" ∧
    (renderStmts set ss p).failure = none ∧
    (renderStmts set ss p).pass.page.pending = "z\n" ++ indentLines (Page.indentation "\t" 2)
      (renderStmts set ss {}).pass.page.pending ∧
    (renderStmts set ss p).pass.page.column = 0 ∧ (renderStmts set ss p).pass.page.depth = 2 := by
  intro set ss p
  have hl : rebuildStmts .unlocated ss = ss := by
    simp [ss, rebuildStmts, Stmt.rebuild, Expr.rebuild, rebuildExprs, Rebuild.unlocated]
  have hr : set.names.All Solid := by
    simp only [RuntimeNames.All, set]
    decide
  have hn : stmtsAllNames set Solid ss := by
    simp only [ss, stmtsAllNames, Stmt.AllNames, Expr.AllNames, exprsAllNames, and_true]
    decide
  have htext : (renderStmts set ss {}).pass.page.pending =
      "if a:\n\t\x7b\n\t\tk: v\n\t\x7d\n\nelif b:\n\tx\n\ty\n\n" := by
    dsimp only [set, ss]
    decide +kernel
  have hnone : (renderStmts set ss {}).failure = none := by
    dsimp only [set, ss]
    decide +kernel
  obtain ⟨hsame, hprinted⟩ := renderStmts_indented (p := p) (by decide) hl ⟨set, hr, hn, rfl⟩ rfl
    (fun _ => rfl) Template.Cache.sound_empty
  exact ⟨htext, hsame.mpr hnone, hprinted (hsame.mpr hnone)⟩

end CodePrinter
