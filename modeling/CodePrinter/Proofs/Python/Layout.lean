import CodePrinter.Proofs.Python.Tokens

/-! The layout of Python text: lines, their indentation, and what stands under what.

Main statement: the lines of an outline, each a unit deeper than the one it stands under, are read
as the outline (`nest_itemsLines`). -/
namespace CodePrinter.Python

/-- A line that is not empty. -/
structure Line where
  /-- The number of indentation units before it. -/
  depth : Nat
  tokens : List Token

/-- A line, and the lines that stand under it. -/
inductive Item where
  | mk (tokens : List Token) (under : List Item)

/-- Reads a line behind whole units of indentation, each of some spaces. -/
def readLine? (unit : Nat) (cs : List Char) : Option Line :=
  let spaces := (cs.takeWhile (· = ' ')).length
  if spaces % unit = 0 then
    (tokens? (String.ofList (cs.dropWhile (· = ' ')))).map fun tokens =>
      { depth := spaces / unit, tokens }
  else none

/-- Reads the lines that are not empty. -/
def readLines? (unit : Nat) (cs : List Char) : Option (List Line) :=
  ((cs.splitOn '\n').filter (!·.isEmpty)).mapM (readLine? unit)

/-- Reads an outline at some depth. The longest run of deeper lines after a line stands under it,
one unit deeper. -/
def nest (depth : Nat) : List Line → Option (List Item)
  | [] => some []
  | line :: rest =>
    if line.depth = depth then do
      let under ← nest (depth + 1) (rest.takeWhile (depth < ·.depth))
      let items ← nest depth (rest.dropWhile (depth < ·.depth))
      return .mk line.tokens under :: items
    else none
  termination_by lines => lines.length
  decreasing_by
  · exact Nat.lt_succ_of_le (List.takeWhile_sublist _).length_le
  · exact Nat.lt_succ_of_le (List.dropWhile_sublist _).length_le

mutual

/-- The lines of an item at some depth. -/
def Item.lines (depth : Nat) : Item → List Line
  | .mk tokens under => { depth, tokens } :: itemsLines (depth + 1) under

def itemsLines (depth : Nat) : List Item → List Line
  | [] => []
  | item :: items => item.lines depth ++ itemsLines depth items

end

theorem itemsLines_append (depth : Nat) (xs ys : List Item) :
    itemsLines depth (xs ++ ys) = itemsLines depth xs ++ itemsLines depth ys := by
  induction xs with
  | nil => rw [List.nil_append, itemsLines, List.nil_append]
  | cons x xs ih => rw [List.cons_append, itemsLines, itemsLines, ih, List.append_assoc]

mutual

theorem Item.le_depth (depth : Nat) : (item : Item) → ∀ l ∈ item.lines depth, depth ≤ l.depth
  | .mk tokens under => by
    intro l hl
    rw [Item.lines, List.mem_cons] at hl
    rcases hl with rfl | hl
    · exact Nat.le_refl _
    · have := itemsLines_le_depth (depth + 1) under l hl
      omega

theorem itemsLines_le_depth (depth : Nat) :
    (items : List Item) → ∀ l ∈ itemsLines depth items, depth ≤ l.depth
  | [] => by simp [itemsLines]
  | item :: items => by
    intro l hl
    rw [itemsLines, List.mem_append] at hl
    rcases hl with hl | hl
    · exact item.le_depth depth l hl
    · exact itemsLines_le_depth depth items l hl

end

theorem head_itemsLines (depth : Nat) (items : List Item) :
    ∀ l ∈ (itemsLines depth items).head?, l.depth = depth := by
  cases items with
  | nil => simp [itemsLines]
  | cons item items =>
    obtain ⟨tokens, under⟩ := item
    intro l hl
    rw [itemsLines, Item.lines] at hl
    simp only [List.cons_append, List.head?_cons, Option.mem_some_iff] at hl
    rw [← hl]

/-- The lines under an item end where the next item begins. -/
theorem deeper_lines (depth : Nat) (under items : List Item) :
    let rest := itemsLines (depth + 1) under ++ itemsLines depth items
    rest.takeWhile (depth < ·.depth) = itemsLines (depth + 1) under ∧
      rest.dropWhile (depth < ·.depth) = itemsLines depth items := by
  have hunder : ∀ l ∈ itemsLines (depth + 1) under, decide (depth < l.depth) = true := by
    intro l hl
    have := itemsLines_le_depth (depth + 1) under l hl
    exact decide_eq_true (by omega)
  have hitems := head_itemsLines depth items
  intro rest
  simp only [rest]
  rw [List.takeWhile_append_of_pos hunder, List.dropWhile_append_of_pos hunder]
  cases hl : itemsLines depth items with
  | nil => simp
  | cons l ls =>
    rw [hl] at hitems
    have hdepth : l.depth = depth := hitems l (by simp)
    simp [hdepth]

/-- Reading undoes the writing of an outline. -/
theorem nest_itemsLines : (items : List Item) → (depth : Nat) →
    nest depth (itemsLines depth items) = some items
  | [], depth => by rw [itemsLines, nest]
  | .mk tokens under :: items, depth => by
    obtain ⟨htake, hdrop⟩ := deeper_lines depth under items
    rw [itemsLines, Item.lines, List.cons_append, nest, if_pos rfl, htake, hdrop,
      nest_itemsLines under (depth + 1), nest_itemsLines items depth]
    rfl

variable {unit : Nat} {cs rest : List Char}

theorem readLines?_nil (unit : Nat) : readLines? unit [] = some [] := rfl

theorem readLines?_empty (unit : Nat) (rest : List Char) :
    readLines? unit ('\n' :: rest) = readLines? unit rest := by
  have hsplit : ('\n' :: rest).splitOn '\n' = [] :: rest.splitOn '\n' :=
    List.splitOn_append_cons_self_of_not_mem List.not_mem_nil rest
  simp [readLines?, hsplit]

theorem readLines?_line {line : Line} (hcs : '\n' ∉ cs) (hne : cs ≠ [])
    (h : readLine? unit cs = some line) (rest : List Char) :
    readLines? unit (cs ++ '\n' :: rest) = (readLines? unit rest).map (line :: ·) := by
  have hfilter : (!cs.isEmpty) = true := by simpa using hne
  rw [readLines?, List.splitOn_append_cons_self_of_not_mem hcs rest, List.filter_cons,
    if_pos hfilter, List.mapM_cons, h, readLines?]
  cases ((rest.splitOn '\n').filter (!·.isEmpty)).mapM (readLine? unit) <;> rfl

theorem takeWhile_spaces (n : Nat) {c : Char} (hc : c ≠ ' ') (cs : List Char) :
    (List.replicate n ' ' ++ c :: cs).takeWhile (· = ' ') = List.replicate n ' ' ∧
      (List.replicate n ' ' ++ c :: cs).dropWhile (· = ' ') = c :: cs := by
  have hall : ∀ x ∈ List.replicate n ' ', decide (x = ' ') = true := by
    intro x hx
    exact decide_eq_true (List.eq_of_mem_replicate hx)
  rw [List.takeWhile_append_of_pos hall, List.dropWhile_append_of_pos hall]
  simp [hc]

theorem readLine?_indented {text : String} {ts : List Token} {c : Char} (hunit : 0 < unit)
    (hc : c ≠ ' ') (htext : text.toList = c :: cs) (ht : tokens? text = some ts) (depth : Nat) :
    readLine? unit (List.replicate (depth * unit) ' ' ++ text.toList) =
      some { depth, tokens := ts } := by
  obtain ⟨htake, hdrop⟩ := takeWhile_spaces (depth * unit) hc cs
  rw [htext, readLine?, htake, hdrop, ← htext, String.ofList_toList, ht]
  simp [hunit]

end CodePrinter.Python
