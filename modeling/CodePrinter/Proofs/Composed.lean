import CodePrinter.Proofs.OneLine
import CodePrinter.Proofs.Runs

/-! Instructions that are composed of texts of one line, line breaks and marks.

Main statement: what can come after the first of such instructions (`Composed.follows`). -/
namespace CodePrinter

open Text

/-- A list of instructions is put together from texts of one line, line breaks and marks, in which
every indentation follows a line break. -/
inductive Composed : List Instr → Prop
  | nil : Composed []
  | append {is js : List Instr} (hi : Composed is) (hj : Composed js) : Composed (is ++ js)
  | text {value : String} (h : OneLine value) : Composed [.text value]
  | mark {loc : Location} : Composed [.mark loc]
  | newline : Composed [.newline]
  | deeper : Composed [.newline, .indent]
  | dedent : Composed [.dedent]
  | endLine : Composed [.endLine]
  | snippetLine {value : String} {more : Bool} (h : OneLine value) :
      Composed [.snippetLine value more]
  | template {source : String} {fill : List Template.Part → List Instr}
      (h : ∀ parts, Composed (fill parts)) : Composed [.template source fill]
  | problem {what : Problem} {loc : Option Location} : Composed [.problem what loc]
  | fail {what : Failure} : Composed [.fail what]

variable {i : Instr} {is js todo : List Instr}

/-- What the rest of a composed list can be after its first instruction. -/
def Follows (todo : List Instr) : Instr → Prop
  | .text value => OneLine value ∧ Composed todo
  | .newline => Composed todo ∨ ∃ rest, todo = .indent :: rest ∧ Composed rest
  | .indent => False
  | .snippetLine value _ => OneLine value ∧ Composed todo
  | .template _ fill => (∀ parts, Composed (fill parts)) ∧ Composed todo
  | _ => Composed todo

theorem Follows.append (h : Follows todo i) (hj : Composed js) : Follows (todo ++ js) i := by
  cases i with
  | text | snippetLine | template => exact ⟨h.1, h.2.append hj⟩
  | newline =>
    rcases h with h | ⟨rest, rfl, hr⟩
    · exact Or.inl (h.append hj)
    · exact Or.inr ⟨rest ++ js, rfl, hr.append hj⟩
  | indent => exact h.elim
  | mark | dedent | endLine | problem | fail => exact Composed.append h hj

theorem Composed.follows (h : Composed (i :: todo)) : Follows todo i := by
  generalize he : i :: todo = is at h
  induction h generalizing i todo with
  | nil => cases he
  | @append is js hi hj ihi ihj =>
    cases is with
    | nil => exact ihj he
    | cons k ks =>
      obtain ⟨rfl, rfl⟩ := List.cons.inj he
      exact (ihi rfl).append hj
  | text h | snippetLine h => cases he; exact ⟨h, .nil⟩
  | newline => cases he; exact Or.inl .nil
  | deeper => cases he; exact Or.inr ⟨[], rfl, .nil⟩
  | mark | dedent | endLine | problem | fail => cases he; exact .nil
  | template h => cases he; exact ⟨h, .nil⟩

namespace Composed

theorem cons_text {value : String} (h : OneLine value) (hi : Composed is) :
    Composed (.text value :: is) :=
  append (text h) hi

end Composed

end CodePrinter
