import CodePrinter.Proofs.OutlinedLines

/-! The suites of printed statements.

Statements print the lines of an outline (`stmts_outlined`). A suite without statements is printed
as `pass`, but one whose statements have no names to list is printed as nothing. Main statement: in
the printed text every header has a line of text below it exactly if there is no such suite
(`suited_iff_filled`). -/
namespace CodePrinter

open Text

namespace Text

/-- A name that has no blank, line feed or colon in it. -/
def isUnbroken (name : String) : Bool :=
  name ≠ "" && name.toList.all fun c => !isIndent c && isClean c

end Text

/-! Statements in which every expression is a name, and every name is unbroken. Only what is printed
counts. -/

def Expr.isUnbroken : Expr → Bool
  | .name id _ => Text.isUnbroken id
  | _ => false

def Param.isUnbroken : Param → Bool
  | .mk name hint => Text.isUnbroken name && hint.all (·.isUnbroken)

def Params.isUnbroken : Params → Bool
  | .mk posOnly regular varArg defaults =>
    posOnly.all (·.isUnbroken) && regular.all (·.isUnbroken) && varArg.all (·.isUnbroken) &&
      defaults.all (·.isUnbroken)

def Alias.isUnbroken (a : Alias) : Bool :=
  Text.isUnbroken a.name && a.asName.all Text.isUnbroken

mutual

def Stmt.isUnbroken (set : Settings) : Stmt → Bool
  | .functionDef name params body decorators returns _ =>
    Text.isUnbroken name && params.isUnbroken && stmtsUnbroken set body &&
      decorators.all (·.isUnbroken) && returns.all (·.isUnbroken)
  | .classDef name bases body decorators _ =>
    Text.isUnbroken name && bases.all (·.isUnbroken) && stmtsUnbroken set body &&
      decorators.all (·.isUnbroken)
  | .conditional test body orElse _ =>
    test.isUnbroken && stmtsUnbroken set body && stmtsUnbroken set orElse
  | .forLoop target iter body _ =>
    target.isUnbroken && iter.isUnbroken && stmtsUnbroken set body
  | .whileLoop test body _ => test.isUnbroken && stmtsUnbroken set body
  | .tryBlock body handlers orElse finalBody _ =>
    stmtsUnbroken set body && handlersUnbroken set handlers && stmtsUnbroken set orElse &&
      stmtsUnbroken set finalBody
  | .importNames names _ => names.all (·.isUnbroken)
  | .importFrom module names _ =>
    (match set.resolve (module.getD ".") with
      | .ok path => path.toList.all isClean
      | .error _ => true) && names.all (·.isUnbroken)
  | .assign targets value _ => targets.all (·.isUnbroken) && value.isUnbroken
  | .returnValue value _ => value.all (·.isUnbroken)
  | .raise exception _ => exception.isUnbroken
  | .expr value _ => value.isUnbroken
  | .globalNames names _ => names.all Text.isUnbroken
  | .nonlocalNames names _ => names.all Text.isUnbroken
  | .asyncFunctionDef _ _ _ _ _ _ | .asyncFor _ _ _ _ | .pass _ | .breakLoop _ | .continueLoop _
  | .unknown _ _ _ => true

def stmtsUnbroken (set : Settings) : List Stmt → Bool
  | [] => true
  | s :: ss => s.isUnbroken set && stmtsUnbroken set ss

def Handler.isUnbroken (set : Settings) : Handler → Bool
  | .mk body type name _ =>
    stmtsUnbroken set body && type.all (·.isUnbroken) && name.all Text.isUnbroken

def handlersUnbroken (set : Settings) : List Handler → Bool
  | [] => true
  | h :: hs => h.isUnbroken set && handlersUnbroken set hs

end

/-- Statements of which nothing is printed, as there is no name in them. -/
def Stmt.isSilent : Stmt → Bool
  | .importNames names _ => names.isEmpty
  | .importFrom _ names _ => names.isEmpty
  | .globalNames names _ => names.isEmpty
  | .nonlocalNames names _ => names.isEmpty
  | _ => false

/-- Something is printed for a suite: one of its statements, or `pass` if there is none. -/
def fillsSuite (body : List Stmt) : Bool := body.isEmpty || body.any (!·.isSilent)

mutual

/-- Something is printed for every suite of a statement. -/
def Stmt.isFilled : Stmt → Bool
  | .functionDef _ _ body _ _ _ => fillsSuite body && stmtsFilled body
  | .classDef _ _ body _ _ => fillsSuite body && stmtsFilled body
  | .conditional _ body orElse _ =>
    (fillsSuite body && stmtsFilled body) && (fillsSuite orElse && stmtsFilled orElse)
  | .forLoop _ _ body _ => fillsSuite body && stmtsFilled body
  | .whileLoop _ body _ => fillsSuite body && stmtsFilled body
  | .tryBlock body handlers orElse finalBody _ =>
    (fillsSuite body && stmtsFilled body) && handlersFilled handlers &&
      (fillsSuite orElse && stmtsFilled orElse) && (fillsSuite finalBody && stmtsFilled finalBody)
  | _ => true

def stmtsFilled : List Stmt → Bool
  | [] => true
  | s :: ss => s.isFilled && stmtsFilled ss

def Handler.isFilled : Handler → Bool
  | .mk body _ _ _ => fillsSuite body && stmtsFilled body

def handlersFilled : List Handler → Bool
  | [] => true
  | h :: hs => h.isFilled && handlersFilled hs

end

variable {set : Settings} {is : List Instr} {p q : Pass}

theorem isClean_of_isUnbroken {name : String} (h : isUnbroken name = true) :
    name.toList.all isClean = true := by
  simp only [isUnbroken, Bool.and_eq_true] at h
  refine List.all_eq_true.mpr fun c hc => ?_
  have := List.all_eq_true.mp h.2 c hc
  simp_all

theorem within_name (set : Settings) {name : String} (h : isUnbroken name = true) :
    Within set isClean [.text name] :=
  .text set name (isClean_of_isUnbroken h)

theorem Expr.leads {e : Expr} (h : e.isUnbroken = true) :
    Leads set isClean (e.fragment set.names).bare := by
  cases e with
  | name id loc =>
    rw [Expr.fragment]
    refine Leads.mark (.text set id (isClean_of_isUnbroken h) ?_) loc
    simp only [Expr.isUnbroken, Text.isUnbroken, Bool.and_eq_true] at h
    obtain ⟨hne, hall⟩ := h
    cases hid : id.toList with
    | nil => simp_all
    | cons c cs => simp_all
  | _ => cases h

theorem Expr.within {e : Expr} (h : e.isUnbroken = true) :
    Within set isClean (e.fragment set.names).bare :=
  (Expr.leads h).within

theorem Param.within {q : Param} (h : q.isUnbroken = true) :
    Within set isInline ((q.fragment set.names).print true) := by
  obtain ⟨name, hint⟩ := q
  simp only [Param.isUnbroken, Bool.and_eq_true] at h
  have hname := (within_name set h.1).inline
  rw [Param.fragment]
  cases hint with
  | none => exact hname
  | some hint =>
    rw [optionFragment]
    exact hname.append (.cons ": " (by decide) (Expr.within h.2).inline)

theorem Param.within_default {q : ParamFragment} {e : Expr} (h : e.isUnbroken = true) :
    Within set isInline (q.printDefault true (some (e.fragment set.names))) := by
  refine .cons _ ?_ (Expr.within h).inline
  split <;> decide

theorem Params.within {ps : Params} (h : ps.isUnbroken = true) :
    Within set isInline ((ps.fragment set.names).print true) := by
  obtain ⟨posOnly, regular, varArg, defaults⟩ := ps
  simp only [Params.isUnbroken, Bool.and_eq_true, List.all_eq_true] at h
  obtain ⟨⟨⟨hpos, hregular⟩, hvar⟩, hdefaults⟩ := h
  refine .commaSeparated (by decide) fun item hm => ?_
  rw [Params.fragment, ParamsFragment.items, List.mem_append, List.mem_append,
    List.mem_append] at hm
  simp only [paramFragments_eq_map, fragments_eq_map] at hm
  rcases hm with ((hm | hm) | hm) | hm
  · obtain ⟨f, hf, rfl⟩ := List.mem_map.mp hm
    obtain ⟨q, hq, rfl⟩ := List.mem_map.mp hf
    exact Param.within (hpos q hq)
  · split at hm
    · cases hm
    · rw [List.mem_singleton.mp hm]
      exact .text set "/" (by decide)
  · rw [← List.map_uncurry_zip_eq_zipWith] at hm
    obtain ⟨⟨f, d⟩, hz, rfl⟩ := List.mem_map.mp hm
    obtain ⟨hf, hd⟩ := List.of_mem_zip hz
    obtain ⟨q, hq, rfl⟩ := List.mem_map.mp hf
    refine (Param.within (hregular q hq)).append ?_
    rw [ParamsFragment.alignedDefaults, List.mem_append] at hd
    rcases hd with hd | hd
    · rw [List.eq_of_mem_replicate hd]
      exact .nil set isInline
    · obtain ⟨value, hvalue, rfl⟩ := List.mem_map.mp hd
      obtain ⟨e, he, rfl⟩ := List.mem_map.mp (List.mem_of_mem_drop hvalue)
      exact Param.within_default (hdefaults e he)
  · obtain ⟨f, hf, rfl⟩ := List.mem_map.mp hm
    cases varArg with
    | none => simp [optionParamFragment] at hf
    | some q =>
      obtain rfl : f = q.fragment set.names := by simpa [optionParamFragment] using hf
      exact .cons "*" (by decide) (Param.within hvar)

theorem within_bare {es : List Expr} (h : es.all (·.isUnbroken) = true) :
    ∀ item ∈ (fragments set.names es).map (·.bare), Within set isClean item := by
  intro item hm
  rw [fragments_eq_map, List.map_map] at hm
  obtain ⟨e, he, rfl⟩ := List.mem_map.mp hm
  exact Expr.within (List.all_eq_true.mp h e he)

theorem within_option {e : Option Expr} (keyword : String)
    (hk : keyword.toList.all isClean = true) (h : e.all (·.isUnbroken) = true) :
    Within set isClean (match optionFragment set.names e with
      | some f => .text keyword :: f.bare
      | none => []) := by
  cases e with
  | none => exact .nil set isClean
  | some e => exact .cons keyword hk (Expr.within h)

theorem Alias.within {a : Alias} (h : a.isUnbroken = true) : Within set isClean a.print := by
  obtain ⟨name, asName⟩ := a
  simp only [Alias.isUnbroken, Bool.and_eq_true] at h
  have hname := within_name set h.1
  rw [Alias.print]
  cases asName with
  | none => exact hname
  | some asName =>
    simp only
    split
    · exact hname
    · exact hname.append (.cons " as " (by decide) (within_name set h.2))

theorem within_aliases {names : List Alias} (h : names.all (·.isUnbroken) = true) :
    Within set isClean (aliases names) := by
  have hitems : Within set isClean (commaSeparated (names.map Alias.print)) := by
    refine .commaSeparated (by decide) fun item hm => ?_
    obtain ⟨a, ha, rfl⟩ := List.mem_map.mp hm
    exact Alias.within (List.all_eq_true.mp h a ha)
  rw [aliases]
  split
  · exact (Within.cons "(" (by decide) hitems).append (.text set ")" (by decide))
  · exact hitems

theorem all_intercalate {ok : Char → Bool} {separator : List Char} {items : List (List Char)}
    (hs : separator.all ok = true) (h : ∀ item ∈ items, item.all ok = true) :
    (separator.intercalate items).all ok = true := by
  induction items with
  | nil => simp
  | cons item items ih =>
    have hitem := h item List.mem_cons_self
    have hitems := ih fun x hx => h x (List.mem_cons_of_mem item hx)
    cases items with
    | nil => simpa using hitem
    | cons next items =>
      rw [List.intercalate_cons_cons, List.all_append, List.all_append, hitem, hs, hitems]
      rfl

theorem within_nameList {names : List String} (h : names.all isUnbroken = true) :
    Within set isClean [.text (", ".intercalate names)] := by
  refine .text set _ ?_
  rw [String.toList_intercalate]
  refine all_intercalate (by decide) fun item hm => ?_
  obtain ⟨name, hname, rfl⟩ := List.mem_map.mp hm
  exact isClean_of_isUnbroken (List.all_eq_true.mp h name hname)

theorem leads_assign {targets : List Expr} {value : Expr}
    (ht : targets.all (·.isUnbroken) = true) (hv : value.isUnbroken = true) :
    Leads set isClean ((fragments set.names targets).flatMap assignTarget ++
      (value.fragment set.names).bare) := by
  induction targets with
  | nil => simpa [fragments] using Expr.leads hv
  | cons e es ih =>
    rw [List.all_cons, Bool.and_eq_true] at ht
    have hfirst : Leads set isClean (assignTarget (e.fragment set.names)) :=
      (Expr.leads ht.1).append (.text set " = " (by decide))
    simpa [fragments] using hfirst.append (ih ht.2).within

section Statements

variable {body : List Stmt} {f : Bool}

theorem outlined_orPass
    (h : Outlined set (stmtsInstrs set body) (body.any (!·.isSilent)) (stmtsFilled body)) :
    Outlined set (orPass (stmtsInstrs set body) body.isEmpty) (fillsSuite body)
      (stmtsFilled body) := by
  cases body with
  | nil => exact .row (.inr rfl) (.text set "pass" (by decide) (by decide))
  | cons s ss => simpa [orPass, fillsSuite] using h

/-- Decorators are lines before the header of what they decorate. -/
theorem outlined_decorators {decorators : List Expr} (h : decorators.all (·.isUnbroken) = true)
    (hi : ∀ loc, Outlined set (markAt loc ++ is) true f) (loc : Option Location) :
    Outlined set (markAt loc ++ (fragments set.names decorators).flatMap decorator ++ is)
      true f := by
  induction decorators generalizing loc with
  | nil => simpa [fragments] using hi loc
  | cons e es ih =>
    rw [List.all_cons, Bool.and_eq_true] at h
    have hat : Leads set isClean [.text "@"] := .text set _ (by decide) (by decide)
    have hfirst := Outlined.row (.inl rfl) ((hat.append (Expr.within h.1)).mark loc)
    simpa [fragments, decorator, markAt] using hfirst.append (ih h.2 none)

/-- A statement that lists names, or is silent if there are none. -/
theorem outlined_listing (hne : set.indent ≠ "") (h : Leads set isClean is)
    (loc : Option Location) (empty : Bool) :
    Outlined set (markAt loc ++ (if empty then [] else is) ++ [.endLine]) (!empty) true := by
  cases empty with
  | true => simpa using Outlined.gap hne loc
  | false => exact .row (.inr rfl) (h.mark loc)

/-- A part of a `try` that is left out if it is empty. -/
theorem outlined_part {keyword : String} (hk : Tells set [.text keyword] true)
    (h : Outlined set (stmtsInstrs set body) (body.any (!·.isSilent)) (stmtsFilled body)) :
    ∃ opens, Outlined set
      (if body.isEmpty then [] else .text keyword :: block (stmtsInstrs set body)) opens
      (fillsSuite body && stmtsFilled body) := by
  cases body with
  | nil => exact ⟨false, .nil set⟩
  | cons s ss =>
    refine ⟨true, ?_⟩
    simpa [fillsSuite] using Outlined.block hk h

end Statements

theorem tells_else (set : Settings) : Tells set [.text "else:"] true :=
  tells_keyword set _ (by decide) (by decide) (by decide)

mutual

/-- A statement prints lines of text unless it is silent, and fills its suites if it is filled. -/
theorem Stmt.outlined (hne : set.indent ≠ "") : (s : Stmt) → s.isUnbroken set = true →
    Outlined set (s.instrs set ++ [.endLine]) (!s.isSilent) s.isFilled
  | .functionDef name params body decorators returns loc, h => by
    simp only [Stmt.isUnbroken, Bool.and_eq_true] at h
    obtain ⟨⟨⟨⟨hname, hparams⟩, hbody⟩, hdecorators⟩, hreturns⟩ := h
    have hdef : Leads set isInline [.text "def "] := .text set _ (by decide) (by decide)
    have hheader := (((hdef.append (within_name set hname).inline).append
      (.cons "(" (by decide) (Params.within hparams))).append (.text set ")" (by decide))).append
      (within_option " -> " (by decide) hreturns).inline
    have hblock := fun loc => Outlined.block (tells_header (hheader.mark loc))
      (outlined_orPass (stmts_outlined hne body hbody))
    have := (outlined_decorators hdecorators (fun loc => by simpa using hblock loc) loc).endLine
    cases returns <;>
      simpa [Stmt.instrs, optionFragment, Stmt.isSilent, Stmt.isFilled] using this
  | .classDef name bases body decorators loc, h => by
    simp only [Stmt.isUnbroken, Bool.and_eq_true] at h
    obtain ⟨⟨⟨hname, hbases⟩, hbody⟩, hdecorators⟩ := h
    have hclass : Leads set isInline [.text "class "] := .text set _ (by decide) (by decide)
    have hparents : Within set isInline (if bases.isEmpty then []
        else parenthesized (commaSeparated ((fragments set.names bases).map (·.bare)))) := by
      split
      · exact .nil set isInline
      · exact (Within.cons "(" (by decide) (.commaSeparated (by decide) fun item hm =>
          (within_bare hbases item hm).inline)).append (.text set ")" (by decide))
    have hheader := (hclass.append (within_name set hname).inline).append hparents
    have hblock := fun loc => Outlined.suite (tells_header (hheader.mark loc))
      (outlined_orPass (stmts_outlined hne body hbody))
    have := (outlined_decorators hdecorators (fun loc => by simpa using hblock loc) loc).endLine
    simpa [Stmt.instrs, Stmt.isSilent, Stmt.isFilled] using this
  | .conditional test body orElse loc, h => by
    simp only [Stmt.isUnbroken, Bool.and_eq_true] at h
    obtain ⟨⟨htest, hbody⟩, helse⟩ := h
    have hif : Leads set isInline [.text "if "] := .text set _ (by decide) (by decide)
    obtain ⟨opens, horElse⟩ := else_outlined hne orElse helse
    have hblock := Outlined.block (tells_header ((hif.append (Expr.within htest).inline).mark loc))
      (outlined_orPass (stmts_outlined hne body hbody))
    simpa [Stmt.instrs, Stmt.isSilent, Stmt.isFilled] using (hblock.append horElse).endLine
  | .forLoop target iter body loc, h => by
    simp only [Stmt.isUnbroken, Bool.and_eq_true] at h
    obtain ⟨⟨htarget, hiter⟩, hbody⟩ := h
    have hfor : Leads set isInline [.text "for "] := .text set _ (by decide) (by decide)
    have hheader := (hfor.append (Expr.within htarget).inline).append
      (.cons " in " (by decide) (Expr.within hiter).inline)
    have hblock := Outlined.suite (tells_header (hheader.mark loc))
      (outlined_orPass (stmts_outlined hne body hbody))
    simpa [Stmt.instrs, Stmt.isSilent, Stmt.isFilled] using hblock.endLine
  | .whileLoop test body loc, h => by
    simp only [Stmt.isUnbroken, Bool.and_eq_true] at h
    have hwhile : Leads set isInline [.text "while "] := .text set _ (by decide) (by decide)
    have hblock := Outlined.suite
      (tells_header ((hwhile.append (Expr.within h.1).inline).mark loc))
      (outlined_orPass (stmts_outlined hne body h.2))
    simpa [Stmt.instrs, Stmt.isSilent, Stmt.isFilled] using hblock.endLine
  | .tryBlock body handlers orElse finalBody loc, h => by
    simp only [Stmt.isUnbroken, Bool.and_eq_true] at h
    obtain ⟨⟨⟨hbody, hhandlers⟩, helse⟩, hfinal⟩ := h
    have htry := tells_keyword set "try:" (by decide) (by decide) (by decide)
    have hlast := tells_keyword set "finally:" (by decide) (by decide) (by decide)
    have hblock := Outlined.block (htry.mark loc) (outlined_orPass (stmts_outlined hne body hbody))
    obtain ⟨a, hexcept⟩ := handlers_outlined hne handlers hhandlers
    obtain ⟨b, horElse⟩ := outlined_part (tells_else set) (stmts_outlined hne orElse helse)
    obtain ⟨c, hfinally⟩ := outlined_part hlast (stmts_outlined hne finalBody hfinal)
    have := (((hblock.append hexcept).append horElse).append hfinally).endLine
    simpa [Stmt.instrs, Stmt.isSilent, Stmt.isFilled] using this
  | .importNames names loc, h => by
    have himport : Leads set isClean [.text "import "] := .text set _ (by decide) (by decide)
    have hlist := himport.append (within_aliases h)
    simpa [Stmt.instrs, Stmt.isSilent, Stmt.isFilled] using
      outlined_listing hne hlist loc names.isEmpty
  | .importFrom module names loc, h => by
    simp only [Stmt.isUnbroken, Bool.and_eq_true] at h
    have hfrom : Leads set isClean [.text "from "] := .text set _ (by decide) (by decide)
    have hlist := (hfrom.append (within_textOr h.1)).append
      (.cons " import " (by decide) (within_aliases h.2))
    simpa [Stmt.instrs, Stmt.isSilent, Stmt.isFilled] using
      outlined_listing hne hlist loc names.isEmpty
  | .assign targets value loc, h => by
    simp only [Stmt.isUnbroken, Bool.and_eq_true] at h
    simpa [Stmt.instrs, Stmt.isSilent, Stmt.isFilled] using
      Outlined.row (.inr rfl) ((leads_assign h.1 h.2).mark loc)
  | .returnValue value loc, h => by
    have hreturn : Leads set isClean [.text "return"] := .text set _ (by decide) (by decide)
    have := Outlined.row (.inr rfl) ((hreturn.append (within_option " " (by decide) h)).mark loc)
    cases value <;> simpa [Stmt.instrs, optionFragment, Stmt.isSilent, Stmt.isFilled] using this
  | .raise exception loc, h => by
    have hraise : Leads set isClean [.text "raise "] := .text set _ (by decide) (by decide)
    simpa [Stmt.instrs, Stmt.isSilent, Stmt.isFilled] using
      Outlined.row (.inr rfl) ((hraise.append (Expr.within h)).mark loc)
  | .expr value loc, h => by
    simpa [Stmt.instrs, Stmt.isSilent, Stmt.isFilled] using
      Outlined.row (.inr rfl) ((Expr.leads h).mark loc)
  | .globalNames names loc, h => by
    have hglobal : Leads set isClean [.text "global "] := .text set _ (by decide) (by decide)
    have hlist := hglobal.append (within_nameList h)
    simpa [Stmt.instrs, nameList, Stmt.isSilent, Stmt.isFilled] using
      outlined_listing hne hlist loc names.isEmpty
  | .nonlocalNames names loc, h => by
    have hnonlocal : Leads set isClean [.text "nonlocal "] := .text set _ (by decide) (by decide)
    have hlist := hnonlocal.append (within_nameList h)
    simpa [Stmt.instrs, nameList, Stmt.isSilent, Stmt.isFilled] using
      outlined_listing hne hlist loc names.isEmpty
  | .asyncFunctionDef _ _ _ _ _ loc, _ | .asyncFor _ _ _ loc, _ => by
    have hpass : Leads set isClean [.text "pass"] := .text set _ (by decide) (by decide)
    simpa [Stmt.instrs, Stmt.isSilent, Stmt.isFilled] using
      Outlined.row (.inr rfl) ((hpass.after (inline_problem set _ loc)).mark loc)
  | .pass loc, _ | .breakLoop loc, _ | .continueLoop loc, _ => by
    have hkeyword := fun value hok hc =>
      Outlined.row (.inr rfl) ((Leads.text set value hok hc).mark loc)
    simpa [Stmt.instrs, Stmt.isSilent, Stmt.isFilled] using
      hkeyword _ (by decide) (by decide)
  | .unknown _ node loc, _ => by
    -- Nothing is printed, since the run fails, so that any line will do.
    have hfault : Leads set isClean [.fail (.fault (.ofNode .unknownStatement node))] :=
      ⟨"pass", inline_fail set _ _, by decide, 'p', _, rfl, rfl⟩
    simpa [Stmt.instrs, Stmt.isSilent, Stmt.isFilled] using
      Outlined.row (.inr rfl) (hfault.mark loc)

theorem stmts_outlined (hne : set.indent ≠ "") : (ss : List Stmt) → stmtsUnbroken set ss = true →
    Outlined set (stmtsInstrs set ss) (ss.any (!·.isSilent)) (stmtsFilled ss)
  | [], _ => by
    rw [stmtsInstrs]
    exact .nil set
  | s :: ss, h => by
    simp only [stmtsUnbroken, Bool.and_eq_true] at h
    have := (s.outlined hne h.1).append (stmts_outlined hne ss h.2)
    simpa [stmtsInstrs, stmtsFilled] using this

theorem else_outlined (hne : set.indent ≠ "") : (ss : List Stmt) → stmtsUnbroken set ss = true →
    ∃ opens, Outlined set (elseInstrs set ss) opens (fillsSuite ss && stmtsFilled ss)
  | [], _ => by
    rw [elseInstrs]
    exact ⟨false, .nil set⟩
  | [s], h => by
    simp only [stmtsUnbroken, Bool.and_eq_true] at h
    have helse := Outlined.block (tells_else set) (s.outlined hne h.1)
    cases s with
    | pass loc =>
      rw [elseInstrs]
      exact ⟨false, .nil set⟩
    | conditional test body orElse loc =>
      simp only [Stmt.isUnbroken, Bool.and_eq_true] at h
      obtain ⟨⟨⟨htest, hbody⟩, hrest⟩, -⟩ := h
      have helif : Leads set isInline [.text "elif "] := .text set _ (by decide) (by decide)
      obtain ⟨opens, horElse⟩ := else_outlined hne orElse hrest
      have hblock := Outlined.block
        (tells_header ((helif.append (Expr.within htest).inline).mark loc))
        (outlined_orPass (stmts_outlined hne body hbody))
      refine ⟨true, ?_⟩
      simpa [elseInstrs, stmtsFilled, fillsSuite, Stmt.isSilent, Stmt.isFilled] using
        hblock.append horElse
    | _ =>
      refine ⟨true, ?_⟩
      simpa [elseInstrs, stmtsInstrs, stmtsFilled, fillsSuite] using helse
  | s :: t :: ss, h => by
    rw [stmtsUnbroken, Bool.and_eq_true] at h
    have helse := Outlined.block (tells_else set)
      ((s.outlined hne h.1).append (stmts_outlined hne (t :: ss) h.2))
    refine ⟨true, ?_⟩
    simpa [elseInstrs, stmtsFilled, fillsSuite] using helse

theorem Handler.outlined (hne : set.indent ≠ "") : (h : Handler) → h.isUnbroken set = true →
    Outlined set (h.instrs set) true h.isFilled
  | .mk body type name loc, h => by
    simp only [Handler.isUnbroken, Bool.and_eq_true] at h
    obtain ⟨⟨hbody, htype⟩, hname⟩ := h
    have hexcept : Leads set isInline [.text "except"] := .text set _ (by decide) (by decide)
    have hheader := hexcept.append (within_option " " (by decide) htype).inline
    have hbody := outlined_orPass (stmts_outlined hne body hbody)
    cases name with
    | none =>
      have hblock := Outlined.block (tells_header (hheader.mark loc)) hbody
      cases type <;> simpa [Handler.instrs, optionFragment, Handler.isFilled] using hblock
    | some name =>
      have hnamed := hheader.append (.cons " as " (by decide) (within_name set hname).inline)
      have hblock := Outlined.block (tells_header (hnamed.mark loc)) hbody
      cases type <;> simpa [Handler.instrs, optionFragment, Handler.isFilled] using hblock

theorem handlers_outlined (hne : set.indent ≠ "") :
    (hs : List Handler) → handlersUnbroken set hs = true →
    ∃ opens, Outlined set (handlersInstrs set hs) opens (handlersFilled hs)
  | [], _ => by
    rw [handlersInstrs]
    exact ⟨false, .nil set⟩
  | h :: hs, hh => by
    simp only [handlersUnbroken, Bool.and_eq_true] at hh
    obtain ⟨opens, hrest⟩ := handlers_outlined hne hs hh.2
    refine ⟨true, ?_⟩
    simpa [handlersInstrs, handlersFilled] using (h.outlined hne hh.1).append hrest

end

/-- Wherever statements are printed without a failure, every header has a line of text below it, one
unit deeper and before any line that is not deeper, exactly if something is printed for every
suite. Only a suite whose statements are all silent has nothing printed for it. -/
theorem suited_iff_filled (set : Settings) (ss : List Stmt) (hu : Page.BlankUnit set.indent)
    (hne : set.indent ≠ "") (hs : stmtsUnbroken set ss = true) (hp : p.page.pending = "")
    (hc : p.page.column = 0) (h : renderStmts set ss p = { pass := q }) :
    Suited set.indent (q.page.pending.toList.splitOn '\n') ↔ stmtsFilled ss = true := by
  obtain ⟨o, ho, hwf, -, hfilled⟩ := stmts_outlined hne ss hs
  obtain ⟨-, -, hpending⟩ := ho p q hc h
  rw [hpending, hp, String.empty_append, Outline.suited_render hu hne hwf, hfilled]

/-- Nothing is printed for a suite that lists no names, while there is `pass` in empty suites. -/
theorem suited_iff_filled_silent :
    let silent := [Stmt.whileLoop (.name "x") [.globalNames []]]
    let filled := [Stmt.tryBlock []
      [.mk [.globalNames [], .classDef "A" [.name "B"] [] [.name "d"]] (some (.name "E"))
        (some "e")]
      [.conditional (.name "x") [.importNames [], .pass]
        [.conditional (.name "y") [] [.expr (.name "z")]]]
      [.whileLoop (.name "x") []]]
    (renderStmts {} silent).pass.page.pending = "while x:\n" ∧
    ¬ Suited "    " ((renderStmts {} silent).pass.page.pending.toList.splitOn '\n') ∧
    Suited "    " ((renderStmts {} filled).pass.page.pending.toList.splitOn '\n') := by
  intro silent filled
  have hu : Page.BlankUnit "    " := List.all_eq_true.mp (by decide)
  have hprinted (ss : List Stmt) (h : (renderStmts {} ss).failure = none) :
      renderStmts {} ss = { pass := (renderStmts {} ss).pass } := by rw [← h]
  refine ⟨by decide +kernel, ?_, ?_⟩
  · intro h
    have hsilent := suited_iff_filled {} silent hu (by decide) (by decide) rfl rfl
      (hprinted silent rfl)
    exact absurd (hsilent.mp h) (by decide)
  · have hfilled := suited_iff_filled {} filled hu (by decide) (by decide) rfl rfl
      (hprinted filled rfl)
    exact hfilled.mpr (by decide)

end CodePrinter
