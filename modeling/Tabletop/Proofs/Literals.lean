import Tabletop.Proofs.Programs
import Tabletop.Proofs.Spacing

/-!
# Literals reach the stack

Values that are written one after the other are scanned, compiled and run, and end up on the stack
as they were written (`literals_reach_stack`). On the way a value is a token (`Value.token`) and a
literal (`Value.literal`). A program of literals alone calls no word, so this holds whatever words
the machine knows.
-/

namespace Tabletop

open Exec Instruction

/-! ## Many pushes -/

namespace Stack

/-- Push values one after the other. -/
def pushAll (stack : Stack) (values : List Value) : Stack := values.foldl push stack

private theorem pushAll_cons (stack : Stack) (value : Value) (values : List Value) :
    stack.pushAll (value :: values) = (stack.push value).pushAll values := rfl

theorem toList_pushAll (stack : Stack) (values : List Value) :
    (stack.pushAll values).toList = stack.toList ++ values := by
  induction values generalizing stack with
  | nil => exact (List.append_nil _).symm
  | cons value values ih =>
    rw [pushAll_cons, ih, toList_push, List.append_assoc, List.singleton_append]

/-- Every push counts for the peak, and it was no less before. -/
theorem peak_pushAll (stack : Stack) (values : List Value) :
    (stack.pushAll values).peak = max stack.peak (stack.size + values.length) := by
  induction values generalizing stack with
  | nil => exact (Nat.max_eq_left stack.size_le_peak).symm
  | cons value values ih =>
    rw [pushAll_cons, ih, List.length_cons]
    change max (max stack.peak (stack.size + 1)) (stack.size + 1 + values.length) = _
    omega

end Stack

/-! ## Values that can be written -/

namespace Value

/-- The value as it is written in a program: a text between double quotes, all else as it is
printed. -/
def written : Value → String
  | string s => "\"" ++ s ++ "\""
  | value => value.text

/-- Programs can write the integers that a byte holds and the texts without double quotes and NUL,
all directions and both truth values. -/
inductive Writable : Value → Prop
  | int {n : Int64} : 0 ≤ n.toInt → n.toInt ≤ 255 → Writable (.int n)
  | direction (d : Direction) : Writable (.direction d)
  | bool (b : Bool) : Writable (.bool b)
  | string {s : String} : '\"' ∉ s.toList → '\x00' ∉ s.toList → Writable (.string s)

/-- The token of a value that can be written. -/
def token (location : Location) : Value → Token
  | int n => .ofNumber n.toUInt64 location
  | direction d => .ofDirection d location
  | bool b => .ofBool b location
  | string s => .ofString s location

/-- The literal of a value that can be written. -/
def literal : Value → Literal
  | int n => .int n.toUInt64.toUInt8
  | direction d => .direction d
  | bool b => .bool b
  | string s => .string s

private theorem toInt_eq_toUInt64 {n : Int64} (h : 0 ≤ n.toInt) : n.toInt = n.toUInt64.toNat := by
  have hcases : n.toInt = if 2 * n.toUInt64.toNat < 2 ^ 64 then (n.toUInt64.toNat : Int)
      else n.toUInt64.toNat - (2 ^ 64 : Nat) := n.toBitVec.toInt_eq_toNat_cond
  have hlt := n.toUInt64.toNat_lt
  split at hcases <;> omega

theorem text_int {n : Int64} (h : 0 ≤ n.toInt) :
    (int n).text = Text.showNat n.toUInt64.toNat := by
  rw [text, Text.showInt, if_neg (Int.not_lt.2 h), toInt_eq_toUInt64 h, Int.natAbs_natCast]

section Writable

variable {value : Value}

private theorem Writable.renders (h : value.Writable) (location : Location) :
    Token.Renders written (token location) value := by
  cases h with
  | int hlow _ => exact ⟨(Token.Writable.number _ location).legible, (text_int hlow).symm⟩
  | direction d => exact ⟨(Token.Writable.direction d location).legible, rfl⟩
  | bool b => exact ⟨(Token.Writable.bool b location).legible, rfl⟩
  | string hquote hzero => exact ⟨(Token.Writable.string location hquote hzero).legible, rfl⟩

theorem Writable.denotes (h : value.Writable) (location : Location) :
    (value.token location).Denotes (.literal value.literal) := by
  cases h with
  | @int n hlow hhigh =>
    rw [toInt_eq_toUInt64 hlow] at hhigh
    exact .number rfl rfl (by omega)
  | direction d => exact .direction rfl rfl
  | bool b => exact .bool rfl rfl
  | string _ hzero => exact .string rfl rfl hzero

private theorem Writable.value_literal (h : value.Writable) : value.literal.value = value := by
  cases h with
  | @int n hlow hhigh =>
    have hn := toInt_eq_toUInt64 hlow
    have hbyte : n.toUInt64.toUInt8.toNat = n.toUInt64.toNat := by
      rw [UInt64.toNat_toUInt8]
      omega
    refine congrArg Value.int (Int64.toInt_inj.1 ?_)
    rw [hbyte, Int64.toInt_ofNat_of_lt (by omega), hn]
  | direction | bool | string => rfl

theorem Writable.encodable (h : value.Writable) : value.literal.Encodable := by
  cases h with
  | string _ hzero => exact hzero
  | int | direction | bool => exact trivial

end Writable

end Value

/-! ## Compiling literals -/

section Compiling

variable {tokens : List Token} {leaves : List Leaf}

/-- What a token denotes does not depend on its place. -/
theorem Token.Denotes.of_same {token token' : Token} {leaf : Leaf} (h : token'.Denotes leaf)
    (hsame : token.same token' = true) : token.Denotes leaf := by
  obtain ⟨hkind, hpayload, -⟩ := same_iff.1 hsame
  cases h with
  | number hkind' hpayload' hrange =>
    exact .number (hkind.trans hkind') (hpayload.trans hpayload') hrange
  | direction hkind' hpayload' =>
    exact .direction (hkind.trans hkind') (hpayload.trans hpayload')
  | bool hkind' hpayload' => exact .bool (hkind.trans hkind') (hpayload.trans hpayload')
  | string hkind' hpayload' hzero =>
    exact .string (hkind.trans hkind') (hpayload.trans hpayload') hzero
  | word hword hmarker hnonempty hname hjump =>
    exact .word ⟨hkind.trans hword.1, hpayload.trans hword.2⟩ hmarker hnonempty hname hjump

private theorem Token.Same.of_append {tokens front back : List Token}
    (h : Token.Same tokens (front ++ back)) :
    ∃ first second, tokens = first ++ second ∧ Token.Same first front ∧ Token.Same second back :=
  ⟨_, _, (List.take_append_drop front.length tokens).symm, List.forall₂_take_append _ _ _ h,
    List.forall₂_drop_append _ _ _ h⟩

theorem Token.Is.of_same {token token' : Token} {name : String} (h : token'.Is name)
    (hsame : token.same token' = true) : token.Is name := by
  obtain ⟨hkind, hpayload, -⟩ := same_iff.1 hsame
  exact ⟨hkind.trans h.1, hpayload.trans h.2⟩

/-- What tokens spell does not depend on their places. -/
theorem Spells.of_same {tokens tokens' : List Token} {program : Program}
    (h : Spells tokens' program) (hsame : Token.Same tokens tokens') : Spells tokens program := by
  induction h generalizing tokens with
  | nil =>
    cases hsame
    exact .nil
  | leaf hleaf _ ih =>
    obtain ⟨token, rest, htoken, hrest, rfl⟩ := List.forall₂_cons_right_iff.1 hsame
    exact .leaf (hleaf.of_same htoken) (ih hrest)
  | ifThen hif _ hthen _ ihbody ih =>
    obtain ⟨opener, inner, hopener, hinner, rfl⟩ := List.forall₂_cons_right_iff.1 hsame
    obtain ⟨body, last, rfl, hbody, hlast⟩ := Token.Same.of_append hinner
    obtain ⟨closer, rest, hcloser, hrest, rfl⟩ := List.forall₂_cons_right_iff.1 hlast
    exact .ifThen (hif.of_same hopener) (ihbody hbody) (hthen.of_same hcloser) (ih hrest)
  | ifElse hif _ helse _ hthen _ ihyes ihno ih =>
    obtain ⟨opener, inner, hopener, hinner, rfl⟩ := List.forall₂_cons_right_iff.1 hsame
    obtain ⟨yes, others, rfl, hyes, hothers⟩ := Token.Same.of_append hinner
    obtain ⟨middle, second, hmiddle, hsecond, rfl⟩ := List.forall₂_cons_right_iff.1 hothers
    obtain ⟨no, last, rfl, hno, hlast⟩ := Token.Same.of_append hsecond
    obtain ⟨closer, rest, hcloser, hrest, rfl⟩ := List.forall₂_cons_right_iff.1 hlast
    exact .ifElse (hif.of_same hopener) (ihyes hyes) (helse.of_same hmiddle) (ihno hno)
      (hthen.of_same hcloser) (ih hrest)

private theorem spells_leaves (h : List.Forall₂ Token.Denotes tokens leaves) :
    Spells tokens (leaves.map .leaf) := by
  induction h with
  | nil => exact .nil
  | cons hleaf _ ih => exact .leaf hleaf ih

/-- Without conditionals there are no targets. -/
theorem inReach_leaves (h : List.Forall₂ Token.Denotes tokens leaves) (offset : Nat) :
    InReach offset tokens := by
  induction h generalizing offset with
  | nil => exact inReach_nil offset
  | cons hleaf _ ih =>
    obtain ⟨-, helse, hthen⟩ := hleaf.isLeaf
    exact inReach_cons.2 ⟨fun hmark => (hmark.elim helse hthen).elim, ih _⟩

private theorem layout_leaves (offset : Nat) (leaves : List Leaf) :
    Program.layout offset (leaves.map .leaf) = leaves.map Leaf.instruction := by
  induction leaves generalizing offset with
  | nil => rfl
  | cons leaf leaves ih => exact congrArg (leaf.instruction :: ·) (ih _)

/-- Tokens that denote leaves compile, to one instruction each. -/
theorem compile_leaves (h : List.Forall₂ Token.Denotes tokens leaves) :
    compile tokens = .ok (encodeAll (leaves.map Leaf.instruction)) := by
  refine compile_eq_ok.2 ⟨leaves.map .leaf, Program.ofTokens_eq_ok.2 ?_, ?_⟩
  · exact ⟨spells_leaves h, inReach_leaves h 0⟩
  · rw [Program.code, Program.instructions_eq_layout, layout_leaves]

end Compiling

/-- The instructions that push the values. -/
def pushes (values : List Value) : List Instruction := values.map fun value => .push value.literal

private theorem denotes_of_same {tokens : List Token} {values : List Value} {location : Location}
    (hvalues : ∀ value ∈ values, value.Writable)
    (hsame : Token.Same tokens (values.map (Value.token location))) :
    List.Forall₂ Token.Denotes tokens (values.map fun value => .literal value.literal) := by
  induction values generalizing tokens with
  | nil =>
    cases hsame
    exact .nil
  | cons value values ih =>
    obtain ⟨hvalue, hvalues⟩ := List.forall_mem_cons.1 hvalues
    obtain ⟨token, rest, htoken, hrest, rfl⟩ := List.forall₂_cons_right_iff.1 hsame
    exact .cons ((hvalue.denotes location).of_same htoken) (ih hvalues hrest)

/-- Values that are written in a program compile to code that pushes them. -/
theorem codeOf_written (path : String) (spacing : Spacing Value)
    (h : ∀ value ∈ spacing.items, value.Writable) :
    codeOf path (spacing.text Value.written) = .ok (encodeAll (pushes spacing.items)) := by
  let location := Location.start path
  obtain ⟨tokens, hscan, hsame⟩ := Token.scan_spacing path spacing Value.written
    (Value.token location) fun value hvalue => (h value hvalue).renders location
  have hcompile := compile_leaves (denotes_of_same h hsame)
  rw [List.map_map] at hcompile
  simp only [codeOf, hscan, hcompile]
  rfl

/-! ## Running literals -/

/-- Code that pushes values does so, and does nothing else. -/
theorem runRest_pushes {call : String → Exec Unit} (hcall : ∀ name, Keeping (call name))
    {values : List Value} (hvalues : ∀ value ∈ values, value.Writable) {machine : Machine}
    {cursor : Cursor UInt8} (hcode : machine.code = some cursor)
    (hrest : cursor.rest = encodeAll (pushes values)) :
    ∃ code journal, runRest call machine =
      .ok () { machine with stack := machine.stack.pushAll values, code, journal } := by
  -- The induction is on the values still to be pushed, for any machine that stands at their code.
  induction values generalizing machine cursor with
  | nil => exact ⟨_, _, runRest_of_end hcode (Cursor.rest_eq_nil_iff.1 hrest)⟩
  | cons value values ih =>
    obtain ⟨hvalue, hvalues⟩ := List.forall_mem_cons.1 hvalues
    rw [pushes, List.map_cons, encodeAll_cons] at hrest
    obtain ⟨cursor', hpast, hrest'⟩ := Cursor.exists_past hrest
    have hstep := @runStep_push call machine cursor cursor' _ hcode hvalue.encodable hpast
    rw [hvalue.value_literal] at hstep
    have hcode' : (machine.pushing value cursor cursor').code = some cursor' := rfl
    obtain ⟨code, journal, hrun⟩ := ih hvalues hcode' hrest'
    refine ⟨code, journal, ?_⟩
    rw [runRest_of_step hcall hcode (hpast.hasNext (encode_ne_nil _)) hstep, hrun]
    rfl

private theorem runCode_pushes {call : String → Exec Unit} (hcall : ∀ name, Keeping (call name))
    {values : List Value} (hvalues : ∀ value ∈ values, value.Writable) (machine : Machine) :
    ∃ journal, Exec.runCode call (encodeAll (pushes values)) machine =
      .ok () { machine with stack := machine.stack.pushAll values, journal } := by
  let entered := machine.enter (encodeAll (pushes values))
  have hcode : entered.code = some (.start (encodeAll (pushes values))) := rfl
  obtain ⟨code, journal, hrun⟩ := runRest_pushes hcall hvalues hcode rfl
  refine ⟨.finished (machine.stack.pushAll values).peak :: journal, ?_⟩
  rw [runCode_eq_runRest, hrun]
  rfl

/-- Values that are written one after the other, with blanks between them, are a program that leaves
exactly these values on the stack, in their order and at no time more of them. It does not matter
which words the machine knows or what was on the stack, and nothing but the stack and the journal
changes. -/
theorem literals_reach_stack (machine : Machine) (path : String) (spacing : Spacing Value)
    (h : ∀ value ∈ spacing.items, value.Writable) :
    ∃ stack journal, machine.perform (.runSource path (spacing.text Value.written)) =
        .ok .nothing { machine with stack, journal } ∧
      stack.toList = spacing.items ∧ stack.peak = spacing.items.length := by
  let loaded : Journal := (loadLog path (spacing.text Value.written)).reverse ++ machine.journal
  have hload := runSource_of_ok (codeOf_written path spacing h) machine
  obtain ⟨journal, hrun⟩ := runCode_pushes (invoke_keeps deepestCall) h
    { machine with stack := .empty, journal := loaded }
  refine ⟨Stack.empty.pushAll spacing.items, journal, ?_, ?_, ?_⟩
  · exact bind_eq_of_ok (hload.trans hrun)
  · rw [Stack.toList_pushAll, Stack.toList_empty, List.nil_append]
  · simp [Stack.peak_pushAll, Stack.empty]

/-- The largest byte, a text with a line break and two values with names, on a machine that knows no
words, has no room to print and has something on the stack. -/
theorem literals_reach_stack_mixed :
    let values : List Value := [.int 255, .string "é\n1", .direction .west, .bool false]
    let machine : Machine := { Machine.start .empty Table.standard (.empty [⟨0, "no room"⟩]) with
      stack := Stack.empty.push (.int 7) }
    ∃ spacing : Spacing Value, spacing.items = values ∧
      spacing.text Value.written = "255\u2003\"é\n1\"\n\tWEST FALSE\r" ∧
      (∀ value ∈ spacing.items, value.Writable) ∧
      ∃ stack journal, machine.perform (.runSource "p" (spacing.text Value.written)) =
          .ok .nothing { machine with stack, journal } ∧
        stack.toList = values ∧ stack.peak = 4 := by
  intro values machine
  let parts := values.zip [['\u2003'], ['\n', '\t'], [' '], ['\r']]
  have hgaps : (parts.all fun part => part.2.all Text.isBlank) = true := by decide +kernel
  let spacing : Spacing Value :=
    { lead := []
      parts := parts
      lead_blank := by simp [Token.Blanks]
      gaps_blank := fun part hpart => List.all_eq_true.1 (List.all_eq_true.1 hgaps part hpart)
      apart := by simp [parts, values] }
  have htext : spacing.text Value.written = "255\u2003\"é\n1\"\n\tWEST FALSE\r" := by
    change String.ofList (Token.piecesText (Spacing.pieces Value.written parts)) = _
    decide +kernel
  have hwritable : ∀ value ∈ spacing.items, value.Writable := by
    rintro value (_ | ⟨_, _ | ⟨_, _ | ⟨_, _ | ⟨_, ⟨⟩⟩⟩⟩⟩)
    · exact .int (by decide) (by decide)
    · exact .string (by decide) (by decide)
    · exact .direction .west
    · exact .bool false
  exact ⟨spacing, rfl, htext, hwritable, literals_reach_stack machine "p" spacing hwritable⟩

end Tabletop
