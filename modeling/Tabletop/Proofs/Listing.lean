import Tabletop.Proofs.Programs
import Tabletop.Proofs.Quoting
import Tabletop.Proofs.Spacing

/-!
# A listing determines the code

An instruction is told by its words if the name of a word holds visible characters only
(`Instruction.text_inj`): a name with a blank in it could pass for one that is followed by a target.
In the code of a text no name has a blank (`exists_listable`). The words of an instruction hold no
line break either, so the lines of a listing tell its instructions one by one
(`Instruction.lines_inj`), and these make up the code (`listing_determines_code`).
-/

namespace Tabletop

/-! ## Numerals -/

namespace Text

private theorem showNat_injective : Function.Injective showNat := by
  intro m n h
  have hvalue := congrArg (Nat.ofDigitChars 10 · 0) (String.ofList_inj.1 h)
  simpa only [decimalDigits, Nat.ofDigitChars_ten_toDigits] using hvalue

/-- The zeros in front do not change the number. -/
theorem showOffset_injective : Function.Injective showOffset := by
  intro m n h
  have hvalue := congrArg (Nat.ofDigitChars 10 · 0) (String.ofList_inj.1 h)
  simpa only [padStart, decimalDigits, Nat.ofDigitChars_append, Nat.ofDigitChars_replicate_zero,
    Nat.mul_zero, Nat.ofDigitChars_ten_toDigits] using hvalue

private theorem isGraphic_of_mem_showNat {n : Nat} {c : Char} (h : c ∈ (showNat n).toList) :
    Token.isGraphic c = true := by
  rw [showNat, String.toList_ofList] at h
  exact Token.isGraphic_of_isDigit (Token.isDigit_of_mem_decimalDigits h)

private theorem isGraphic_of_mem_showOffset {n : Nat} {c : Char} (h : c ∈ (showOffset n).toList) :
    Token.isGraphic c = true := by
  rw [showOffset, String.toList_ofList, padStart, List.mem_append] at h
  rcases h with hzero | hdigit
  · rw [List.eq_of_mem_replicate hzero]
    decide
  · exact Token.isGraphic_of_isDigit (Token.isDigit_of_mem_decimalDigits hdigit)

end Text

private theorem newline_not_mem_of_graphic {text : List Char}
    (h : ∀ c ∈ text, Token.isGraphic c = true) : '\n' ∉ text := by
  intro hmem
  exact absurd (h _ hmem) (by decide)

/-! ## Literals -/

namespace Literal

theorem text_int (n : UInt8) : (int n).text = Text.showNat n.toNat := by
  have hlt := n.toNat_lt
  have hvalue : (Int64.ofNat n.toNat).toInt = n.toNat := Int64.toInt_ofNat_of_lt (by omega)
  simp [text, value, Value.text, hvalue, Text.showInt]

/-- A literal is told by its kind and its text. -/
theorem text_inj {a b : Literal} (hkind : a.kind = b.kind) (htext : a.text = b.text) : a = b := by
  cases a <;> cases b <;> cases hkind
  case int.int m n =>
    rw [text_int, text_int] at htext
    rw [UInt8.toNat_inj.1 (Text.showNat_injective htext)]
  case direction.direction d e =>
    have hsame := congrArg Direction.ofName? htext
    simpa [text, value, Value.text] using hsame
  case bool.bool b c =>
    have hsame := congrArg boolOfName? htext
    simpa [text, value, Value.text] using hsame
  case string.string s t => rw [Text.quoted_injective htext]

private theorem newline_not_mem_text (literal : Literal) : '\n' ∉ literal.text.toList := by
  cases literal with
  | int n =>
    rw [text_int]
    exact newline_not_mem_of_graphic fun c => Text.isGraphic_of_mem_showNat
  | direction d => cases d <;> decide
  | bool b => cases b <;> decide
  | string s =>
    obtain ⟨body, hbody, hescaped⟩ := Text.quoted_isEscaped s
    have hnewline : '\n' ∉ body := by
      intro hmem
      exact absurd (hescaped.isControl_eq_false _ hmem) (by decide)
    simp [text, hbody, hnewline]

end Literal

/-! ## The words of an instruction -/

namespace Instruction

/-- The name of a word holds visible characters only. -/
def Listable : Instruction → Prop
  | exec name => ∀ c ∈ name.toList, Token.isGraphic c = true
  | _ => True

/-- A name and the target behind it. -/
def aimedText (name : String) (target : UInt16) : List Char :=
  name.toList ++ (" -> ".toList ++ (Text.showOffset target.toNat).toList)

section Words

variable {name : String} {m n target : UInt16} {i j : Instruction}

private theorem toList_text_push (literal : Literal) : (push literal).text.toList =
    "PUSH_VAL   ".toList ++ (literal.kind.name.toList ++ ' ' :: literal.text.toList) := by
  change ("PUSH_VAL   " ++ literal.kind.name ++ " " ++ literal.text).toList = _
  simp

private theorem toList_text_exec (name : String) :
    (exec name).text.toList = "EXEC_WORD  ".toList ++ name.toList :=
  String.toList_append

private theorem toList_text_branch (target : UInt16) :
    (branch target).text.toList = "EXEC_WORD  ".toList ++ aimedText branchName target := by
  change ("EXEC_WORD  " ++ branchName ++ " -> " ++ Text.showOffset target.toNat).toList = _
  simp [aimedText]

private theorem toList_text_jump (target : UInt16) :
    (jump target).text.toList = "EXEC_WORD  ".toList ++ aimedText jumpName target := by
  change ("EXEC_WORD  " ++ jumpName ++ " -> " ++ Text.showOffset target.toNat).toList = _
  simp [aimedText]

private theorem kind_name_inj {a b : Kind} {front back : List Char}
    (h : a.name.toList ++ ' ' :: front = b.name.toList ++ ' ' :: back) : a = b ∧ front = back := by
  cases a <;> cases b <;> simp_all [Kind.name]

private theorem aimedText_inj (h : aimedText name m = aimedText name n) : m = n := by
  have hoffset := List.append_cancel_left (List.append_cancel_left h)
  exact UInt16.toNat_inj.1 (Text.showOffset_injective (String.toList_inj.1 hoffset))

private theorem aimedText_branch_ne_jump : aimedText branchName m ≠ aimedText jumpName n := by
  simp [aimedText, branchName, jumpName]

/-- A blank tells a name with a target from a name alone. -/
theorem Listable.ne_aimedText {word : String} (h : (exec word).Listable) :
    word.toList ≠ aimedText name target := by
  intro heq
  exact absurd (h ' ' (by simp [heq, aimedText])) (by decide)

/-- An instruction is told by its words. -/
theorem text_inj (hi : i.Listable) (hj : j.Listable) (h : i.text = j.text) : i = j := by
  have hchars := congrArg String.toList h
  cases i <;> cases j <;>
    simp only [toList_text_push, toList_text_exec, toList_text_branch, toList_text_jump,
      List.append_cancel_left_eq] at hchars
  case push.push a b =>
    obtain ⟨hkind, htext⟩ := kind_name_inj hchars
    rw [Literal.text_inj hkind (String.toList_inj.1 htext)]
  case exec.exec a b => rw [String.toList_inj.1 hchars]
  case branch.branch m n => rw [aimedText_inj hchars]
  case jump.jump m n => rw [aimedText_inj hchars]
  case exec.branch | exec.jump => exact absurd hchars hi.ne_aimedText
  case branch.exec | jump.exec => exact absurd hchars.symm hj.ne_aimedText
  case branch.jump => exact absurd hchars aimedText_branch_ne_jump
  case jump.branch => exact absurd hchars.symm aimedText_branch_ne_jump
  -- A push and a call differ in their first letter.
  all_goals simp at hchars

private theorem newline_not_mem_aimedText (hname : '\n' ∉ name.toList) :
    '\n' ∉ aimedText name target := by
  have hoffset : '\n' ∉ (Text.showOffset target.toNat).toList :=
    newline_not_mem_of_graphic fun c => Text.isGraphic_of_mem_showOffset
  simp [aimedText, hname, hoffset]

private theorem Listable.newline_not_mem_text (h : i.Listable) : '\n' ∉ i.text.toList := by
  cases i with
  | push literal =>
    have hkind : '\n' ∉ literal.kind.name.toList := by cases literal.kind <;> decide
    have htext := literal.newline_not_mem_text
    simp [toList_text_push, hkind, htext]
  | exec name =>
    have hname := newline_not_mem_of_graphic h
    simp [toList_text_exec, hname]
  | branch target =>
    have haimed := @newline_not_mem_aimedText branchName target (by decide)
    simp [toList_text_branch, haimed]
  | jump target =>
    have haimed := @newline_not_mem_aimedText jumpName target (by decide)
    simp [toList_text_jump, haimed]

end Words

/-! ## The lines of a listing -/

/-- The lines of instructions that follow one another, the first of them at the given offset. -/
def lines (offset : Nat) (instructions : List Instruction) : List Char :=
  (numbered offset instructions).flatMap fun entry => (line entry).toList

private theorem lines_nil (offset : Nat) : lines offset [] = [] := rfl

private theorem lines_cons (offset : Nat) (instruction : Instruction)
    (instructions : List Instruction) :
    lines offset (instruction :: instructions) =
      (Text.showOffset offset).toList ++ ("  ".toList ++ (instruction.text.toList ++
        '\n' :: lines (offset + instruction.size) instructions)) := by
  simp [lines, numbered, line]

/-- Listable instructions are told by their lines, if the first ones have the same offset. -/
theorem lines_inj {instructions others : List Instruction} {offset : Nat}
    (hinstructions : ∀ i ∈ instructions, i.Listable) (hothers : ∀ i ∈ others, i.Listable)
    (h : lines offset instructions = lines offset others) : instructions = others := by
  induction instructions generalizing others offset with
  | nil =>
    cases others with
    | nil => rfl
    | cons other others => simp [lines_nil, lines_cons] at h
  | cons instruction instructions ih =>
    cases others with
    | nil => simp [lines_nil, lines_cons] at h
    | cons other others =>
      rw [List.forall_mem_cons] at hinstructions hothers
      simp only [lines_cons, List.append_cancel_left_eq] at h
      -- The first line break ends the words of both, and their sizes place the next lines.
      obtain ⟨htext, hrest⟩ := @Token.eq_of_append_eq (· != '\n') _ _ _ _ h
        (fun c hc => bne_iff_ne.2 (ne_of_mem_of_not_mem hc hinstructions.1.newline_not_mem_text))
        (fun c hc => bne_iff_ne.2 (ne_of_mem_of_not_mem hc hothers.1.newline_not_mem_text))
        (by simp) (by simp)
      obtain rfl := text_inj hinstructions.1 hothers.1 (String.toList_inj.1 htext)
      rw [ih hinstructions.2 hothers.2 (List.cons.inj hrest).2]

end Instruction

/-! ## The code of a text -/

open Instruction

private theorem Token.Denotes.listable {token : Token} {leaf : Leaf} (h : token.Denotes leaf)
    (hlegible : token.Legible) : leaf.instruction.Listable := by
  cases h with
  | number | direction | bool | string => exact trivial
  | word hword => exact (hlegible.isBare hword).graphic

private theorem Spells.listable {tokens : List Token} {program : Program}
    (h : Spells tokens program)
    (hlegible : ∀ token ∈ tokens, token.Legible) (offset : Nat) :
    ∀ i ∈ Program.layout offset program, i.Listable := by
  induction h generalizing offset with
  | nil => simp [Program.layout]
  | leaf hleaf _ ih =>
    rw [List.forall_mem_cons] at hlegible
    rw [Program.layout, Item.layout, List.forall_mem_append, List.forall_mem_singleton]
    exact ⟨hleaf.listable hlegible.1, ih hlegible.2 _⟩
  | ifThen _ _ _ _ ihbody ih =>
    simp only [List.forall_mem_cons, List.forall_mem_append] at hlegible
    rw [Program.layout, Item.layout, List.forall_mem_append, List.forall_mem_cons]
    exact ⟨⟨trivial, ihbody hlegible.2.1 _⟩, ih hlegible.2.2.2 _⟩
  | ifElse _ _ _ _ _ _ ihyes ihno ih =>
    simp only [List.forall_mem_cons, List.forall_mem_append] at hlegible
    rw [Program.layout, Item.layout, List.forall_mem_append, List.forall_mem_cons,
      List.forall_mem_append, List.forall_mem_cons]
    exact ⟨⟨trivial, ihyes hlegible.2.1 _, trivial, ihno hlegible.2.2.2.1 _⟩,
      ih hlegible.2.2.2.2.2 _⟩

/-- The code of a text is made of listable instructions, and its listing is their lines. -/
theorem exists_listable {path source : String} {code : Code} (h : codeOf path source = .ok code) :
    ∃ instructions text, (∀ i ∈ instructions, i.Listable) ∧ code = encodeAll instructions ∧
      listing code = .ok text ∧
      text.toList = lines 0 instructions := by
  obtain ⟨tokens, hscan, hcompile⟩ := codeOf_eq_ok h
  obtain ⟨program, hprogram, rfl⟩ := compile_eq_ok.1 hcompile
  obtain ⟨hspells, hreach⟩ := Program.ofTokens_eq_ok.1 hprogram
  have hcode : program.code = encodeAll (Program.layout 0 program) := by
    rw [Program.code, Program.instructions_eq_layout]
  have hdecode := decode_eq_ok.2 ⟨_, (hspells.sound hreach).encodable, hcode, rfl⟩
  refine ⟨Program.layout 0 program, String.join ((numbered 0 (Program.layout 0 program)).map line),
    hspells.listable (Token.legible_of_scan hscan) 0, hcode, ?_, ?_⟩
  · rw [listing, hdecode]
    rfl
  · rw [String.toList_join, List.flatMap_map, lines]

/-- The code of a text can be listed, and codes of texts that have the same listing are the same.
Strings are listed between double quotes, where backslashes, double quotes and control characters do
not stand unescaped. -/
theorem listing_determines_code {path₁ path₂ source₁ source₂ : String} {code₁ code₂ : Code}
    (h₁ : codeOf path₁ source₁ = .ok code₁) (h₂ : codeOf path₂ source₂ = .ok code₂) :
    (∃ text₁ text₂, listing code₁ = .ok text₁ ∧ listing code₂ = .ok text₂ ∧
      (text₁ = text₂ → code₁ = code₂)) ∧
    ∀ s, ∃ body, (Literal.string s).text.toList = '\"' :: (body ++ ['\"']) ∧
      Text.IsEscaped body := by
  refine ⟨?_, Text.quoted_isEscaped⟩
  obtain ⟨instructions₁, text₁, hlistable₁, rfl, htext₁, hlines₁⟩ := exists_listable h₁
  obtain ⟨instructions₂, text₂, hlistable₂, rfl, htext₂, hlines₂⟩ := exists_listable h₂
  refine ⟨text₁, text₂, htext₁, htext₂, ?_⟩
  rintro rfl
  rw [lines_inj hlistable₁ hlistable₂ (hlines₁.symm.trans hlines₂)]

/-- A string with a line break, what looks like a line, and a backslash, in two texts that differ in
their paths, in blanks and in the zeros in front of a number. -/
theorem listing_determines_code_spaced :
    let source₁ := "\"\n0009  IF\\\" TRUE IF 7 THEN"
    let source₂ := "\"\n0009  IF\\\"TRUE\tIF 007\nTHEN\n"
    ∃ code₁ code₂, codeOf "a" source₁ = .ok code₁ ∧ codeOf "b" source₂ = .ok code₂ ∧
      listing code₁ = listing code₂ ∧ code₁ = code₂ ∧
      ∃ body, (Literal.string "\n\\").text.toList = '\"' :: (body ++ ['\"']) ∧
        Text.IsEscaped body := by
  intro source₁ source₂
  obtain ⟨code₁, h₁⟩ : ∃ code, codeOf "a" source₁ = .ok code := exists_codeOf (by decide +kernel)
  obtain ⟨code₂, h₂⟩ : ∃ code, codeOf "b" source₂ = .ok code := exists_codeOf (by decide +kernel)
  have hsame : (codeOf "a" source₁).toOption.bind (fun code => (listing code).toOption) =
      (codeOf "b" source₂).toOption.bind fun code => (listing code).toOption := by decide +kernel
  clear_value source₁ source₂
  obtain ⟨⟨text₁, text₂, htext₁, htext₂, hcode⟩, hescaped⟩ := listing_determines_code h₁ h₂
  have htexts : text₁ = text₂ := by
    simpa [h₁, h₂, htext₁, htext₂, Except.toOption] using hsame
  exact ⟨code₁, code₂, h₁, h₂, by rw [htext₁, htext₂, htexts], hcode htexts, hescaped _⟩

end Tabletop
