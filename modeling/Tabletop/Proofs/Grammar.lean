import Tabletop.Program.Compile
import Tabletop.Proofs.Encoding

/-!
# Which tokens make a program

The rules by which tokens are a program, without regard to how they are compiled. A token must be
in order by itself (`Token.Valid`). The tokens must derive from the grammar

    P ::= nothing | leaf P | IF P THEN P | IF P ELSE P THEN P

(`Derives`, and `Spells` together with the program that they spell). And the offsets that `ELSE` and
`THEN` fix must be in reach of a target (`destinations`). Tokens that break a rule have a first one
that does, and `FirstError` is the error to report for it.
-/

namespace Tabletop

namespace Token

/-! ## Tokens by themselves -/

/-- The token is the word of the given name. -/
def Is (token : Token) (name : String) : Prop := token.kind = .word ∧ token.payload = .text name

instance (token : Token) (name : String) : Decidable (token.Is name) :=
  inferInstanceAs (Decidable (_ ∧ _))

theorem Is.unique {token : Token} {a b : String} (ha : token.Is a) (hb : token.Is b) : a = b := by
  have h := ha.2.symm.trans hb.2
  cases h
  rfl

/-- The token bounds no conditional. -/
def IsLeaf (token : Token) : Prop :=
  ¬ token.Is branchName ∧ ¬ token.Is "ELSE" ∧ ¬ token.Is "THEN"

/-- The words that have a part of their own in a program. -/
def markers : List String := [branchName, "ELSE", "THEN"]

/-- The token holds what its kind asks for, and that can be written into code. -/
def Valid (token : Token) : Prop :=
  match token.kind, token.payload with
  | .number, .number n => n.toNat ≤ 255
  | .direction, .direction _ => True
  | .bool, .bool _ => True
  | .string, .text s => '\x00' ∉ s.toList
  | .word, .text name => name ∈ markers ∨ (name ≠ "" ∧ IsName name ∧ name ≠ jumpName)
  | _, _ => False

/-- The leaf that a valid token stands for. -/
inductive Denotes (token : Token) : Leaf → Prop
  | number {n : UInt64} : token.kind = .number → token.payload = .number n → n.toNat ≤ 255 →
      Denotes token (.literal (.int n.toUInt8))
  | direction {d : Direction} : token.kind = .direction → token.payload = .direction d →
      Denotes token (.literal (.direction d))
  | bool {b : Bool} : token.kind = .bool → token.payload = .bool b →
      Denotes token (.literal (.bool b))
  | string {s : String} : token.kind = .string → token.payload = .text s → '\x00' ∉ s.toList →
      Denotes token (.literal (.string s))
  | word {name : String} : token.Is name → name ∉ markers → name ≠ "" → IsName name →
      name ≠ jumpName → Denotes token (.word name)

/-- The payload is of the sort that the kind asks for. -/
def Fitting (token : Token) : Prop :=
  match token.kind, token.payload with
  | .number, .number _ => True
  | .direction, .direction _ => True
  | .bool, .bool _ => True
  | .string, .text _ => True
  | .word, .text _ => True
  | _, _ => False

/-- What is wrong with a token by itself. -/
inductive Fault (token : Token) : CompileError → Prop
  | payload : ¬ token.Fitting →
      Fault token (.payloadMismatch token.location token.kind token.lexeme)
  | number {n : UInt64} : token.kind = .number → token.payload = .number n → 255 < n.toNat →
      Fault token (.literalOutOfRange token.location n)
  | string {s : String} : token.kind = .string → token.payload = .text s → '\x00' ∈ s.toList →
      Fault token (.invalidStringLiteral token.location)
  | reserved : token.Is jumpName → Fault token (.reservedWord token.location jumpName)
  | name {name : String} : token.Is name → name ∉ markers → name ≠ jumpName →
      name = "" ∨ ¬ IsName name → Fault token (.invalidWordName token.location name)

/-- How many bytes of code the token adds. -/
def codeSize (token : Token) : Nat :=
  match token.kind, token.payload with
  | .string, .text s => s.utf8ByteSize + 3
  | .word, .text name =>
    if name = branchName then branchSize
    else if name = "ELSE" then jumpSize
    else if name = "THEN" then 0
    else name.utf8ByteSize + 2
  | _, _ => 3

end Token

/-- How many bytes of code the tokens add. -/
def codeSize : List Token → Nat
  | [] => 0
  | token :: rest => token.codeSize + codeSize rest

/-- The offsets that each `ELSE` and `THEN` fixes: the end of the code at that token. -/
def destinations (offset : Nat) : List Token → List Nat
  | [] => []
  | token :: rest =>
    let following := offset + token.codeSize
    if token.Is "ELSE" ∨ token.Is "THEN" then following :: destinations following rest
    else destinations following rest

/-- Every offset that an `ELSE` or a `THEN` fixes is in reach of a target. -/
def InReach (offset : Nat) (tokens : List Token) : Prop :=
  ∀ destination ∈ destinations offset tokens, destination ≤ farthestTarget

@[simp] theorem codeSize_nil : codeSize [] = 0 := rfl

@[simp] theorem codeSize_cons (token : Token) (rest : List Token) :
    codeSize (token :: rest) = token.codeSize + codeSize rest := rfl

@[simp] theorem codeSize_append (front back : List Token) :
    codeSize (front ++ back) = codeSize front + codeSize back := by
  induction front with
  | nil => simp
  | cons token rest ih => simp [ih, Nat.add_assoc]

theorem inReach_nil (offset : Nat) : InReach offset [] := by
  simp [InReach, destinations]

theorem inReach_cons {offset : Nat} {token : Token} {rest : List Token} :
    InReach offset (token :: rest) ↔
      (token.Is "ELSE" ∨ token.Is "THEN" → offset + token.codeSize ≤ farthestTarget) ∧
        InReach (offset + token.codeSize) rest := by
  unfold InReach
  rw [destinations]
  split
  · rename_i hmark
    simp only [List.forall_mem_cons, hmark, true_implies]
  · rename_i hmark
    simp only [hmark, false_implies, true_and]

theorem inReach_append {offset : Nat} {front back : List Token} :
    InReach offset (front ++ back) ↔
      InReach offset front ∧ InReach (offset + codeSize front) back := by
  induction front generalizing offset with
  | nil => simp [inReach_nil]
  | cons token rest ih =>
    rw [List.cons_append, inReach_cons, inReach_cons, ih, codeSize_cons, ← Nat.add_assoc, and_assoc]

/-! ## The grammar -/

/-- The tokens derive from the grammar. -/
inductive Derives : List Token → Prop
  | nil : Derives []
  | leaf {token : Token} {rest : List Token} :
      token.IsLeaf → Derives rest → Derives (token :: rest)
  | ifThen {opener closer : Token} {body rest : List Token} :
      opener.Is branchName → Derives body → closer.Is "THEN" → Derives rest →
      Derives (opener :: (body ++ closer :: rest))
  | ifElse {opener middle closer : Token} {yes no rest : List Token} :
      opener.Is branchName → Derives yes → middle.Is "ELSE" → Derives no → closer.Is "THEN" →
      Derives rest → Derives (opener :: (yes ++ middle :: (no ++ closer :: rest)))

/-- The tokens derive from the grammar, and this is the program they spell. -/
inductive Spells : List Token → Program → Prop
  | nil : Spells [] []
  | leaf {token : Token} {leaf : Leaf} {rest : List Token} {items : Program} :
      token.Denotes leaf → Spells rest items → Spells (token :: rest) (.leaf leaf :: items)
  | ifThen {opener closer : Token} {body rest : List Token} {inner items : Program} :
      opener.Is branchName → Spells body inner → closer.Is "THEN" → Spells rest items →
      Spells (opener :: (body ++ closer :: rest)) (.ifThen inner :: items)
  | ifElse {opener middle closer : Token} {yes no rest : List Token}
      {first second items : Program} :
      opener.Is branchName → Spells yes first → middle.Is "ELSE" → Spells no second →
      closer.Is "THEN" → Spells rest items →
      Spells (opener :: (yes ++ middle :: (no ++ closer :: rest))) (.ifElse first second :: items)

theorem Spells.append {front back : List Token} {first second : Program} (h : Spells front first)
    (hback : Spells back second) : Spells (front ++ back) (first ++ second) := by
  induction h with
  | nil => exact hback
  | leaf hleaf _ ih => exact .leaf hleaf ih
  | ifThen hif hbody hthen _ _ ih =>
    rw [List.cons_append, List.append_assoc, List.cons_append]
    exact .ifThen hif hbody hthen ih
  | ifElse hif hyes helse hno hthen _ _ _ ih =>
    rw [List.cons_append, List.append_assoc, List.cons_append, List.append_assoc, List.cons_append]
    exact .ifElse hif hyes helse hno hthen ih

theorem Token.Is.valid {token : Token} {name : String} (h : token.Is name) (hmem : name ∈ markers) :
    token.Valid := by
  simp only [Valid, h.1, h.2]
  exact .inl hmem

theorem Token.Denotes.valid {token : Token} {leaf : Leaf} (h : token.Denotes leaf) :
    token.Valid := by
  cases h with
  | number hkind hpayload hrange => simpa only [Valid, hkind, hpayload] using hrange
  | direction hkind hpayload => simp only [Valid, hkind, hpayload]
  | bool hkind hpayload => simp only [Valid, hkind, hpayload]
  | string hkind hpayload hzero => simpa only [Valid, hkind, hpayload] using hzero
  | word hword _ hnonempty hascii hjump =>
    simp only [Valid, hword.1, hword.2]
    exact .inr ⟨hnonempty, hascii, hjump⟩

private theorem Token.Denotes.not_is {token : Token} {leaf : Leaf} {name : String}
    (h : token.Denotes leaf) (hmem : name ∈ markers) : ¬ token.Is name := by
  intro hword
  cases h with
  | number hkind | direction hkind | bool hkind | string hkind =>
    rw [hword.1] at hkind
    cases hkind
  | word hword' hmarker =>
    rw [hword.unique hword'] at hmem
    exact hmarker hmem

theorem Token.Denotes.isLeaf {token : Token} {leaf : Leaf} (h : token.Denotes leaf) :
    token.IsLeaf :=
  ⟨h.not_is (by simp [markers]), h.not_is (by simp [markers]), h.not_is (by simp [markers])⟩

theorem Token.Valid.denotes {token : Token} (h : token.Valid) (hleaf : token.IsLeaf) :
    ∃ leaf, token.Denotes leaf := by
  unfold Valid at h
  split at h <;> rename_i hkind hpayload
  · exact ⟨_, .number hkind hpayload h⟩
  · exact ⟨_, .direction hkind hpayload⟩
  · exact ⟨_, .bool hkind hpayload⟩
  · exact ⟨_, .string hkind hpayload h⟩
  · rename_i name
    have hmarker : name ∉ markers := by
      intro hmem
      simp only [markers, List.mem_cons, List.not_mem_nil, or_false] at hmem
      rcases hmem with rfl | rfl | rfl
      · exact hleaf.1 ⟨hkind, hpayload⟩
      · exact hleaf.2.1 ⟨hkind, hpayload⟩
      · exact hleaf.2.2 ⟨hkind, hpayload⟩
    obtain ⟨hnonempty, hascii, hjump⟩ := h.resolve_left hmarker
    exact ⟨_, .word ⟨hkind, hpayload⟩ hmarker hnonempty hascii hjump⟩
  · exact h.elim

theorem Spells.derives {tokens : List Token} {program : Program} (h : Spells tokens program) :
    Derives tokens := by
  induction h with
  | nil => exact .nil
  | leaf hleaf _ ih => exact .leaf hleaf.isLeaf ih
  | ifThen hif _ hthen _ ihbody ih => exact .ifThen hif ihbody hthen ih
  | ifElse hif _ helse _ hthen _ ihyes ihno ih => exact .ifElse hif ihyes helse ihno hthen ih

theorem Spells.valid {tokens : List Token} {program : Program} (h : Spells tokens program) :
    ∀ token ∈ tokens, token.Valid := by
  induction h with
  | nil => simp
  | leaf hleaf _ ih => exact List.forall_mem_cons.2 ⟨hleaf.valid, ih⟩
  | ifThen hif _ hthen _ ihbody ih =>
    simp only [List.forall_mem_cons, List.forall_mem_append]
    exact ⟨hif.valid (by simp [Token.markers]), ihbody, hthen.valid (by simp [Token.markers]), ih⟩
  | ifElse hif _ helse _ hthen _ ihyes ihno ih =>
    simp only [List.forall_mem_cons, List.forall_mem_append]
    exact ⟨hif.valid (by simp [Token.markers]), ihyes, helse.valid (by simp [Token.markers]), ihno,
      hthen.valid (by simp [Token.markers]), ih⟩

theorem Derives.spells {tokens : List Token} (h : Derives tokens)
    (hvalid : ∀ token ∈ tokens, token.Valid) : ∃ program, Spells tokens program := by
  induction h with
  | nil => exact ⟨[], .nil⟩
  -- A valid token that bounds no conditional has a leaf; the rest is the shape of the grammar.
  | leaf hleaf _ ih =>
    rw [List.forall_mem_cons] at hvalid
    obtain ⟨leaf, hdenotes⟩ := hvalid.1.denotes hleaf
    obtain ⟨items, htail⟩ := ih hvalid.2
    exact ⟨_, .leaf hdenotes htail⟩
  | ifThen hif _ hthen _ ihbody ih =>
    simp only [List.forall_mem_cons, List.forall_mem_append] at hvalid
    obtain ⟨inner, hbody⟩ := ihbody hvalid.2.1
    obtain ⟨items, htail⟩ := ih hvalid.2.2.2
    exact ⟨_, .ifThen hif hbody hthen htail⟩
  | ifElse hif _ helse _ hthen _ ihyes ihno ih =>
    simp only [List.forall_mem_cons, List.forall_mem_append] at hvalid
    obtain ⟨first, hyes⟩ := ihyes hvalid.2.1
    obtain ⟨second, hno⟩ := ihno hvalid.2.2.2.1
    obtain ⟨items, htail⟩ := ih hvalid.2.2.2.2.2
    exact ⟨_, .ifElse hif hyes helse hno hthen htail⟩

/-! ## The first error -/

/-- A conditional that is open: where its `IF` stands, and whether it has an `ELSE`. -/
structure OpenIf where
  location : Location
  hasElse : Bool
deriving DecidableEq, Repr

/-- An `IF` opens a conditional, an `ELSE` belongs to the innermost open one, and a `THEN` closes
that one. -/
def OpenIf.step (opened : List OpenIf) (token : Token) : List OpenIf :=
  if token.Is branchName then ⟨token.location, false⟩ :: opened
  else if token.Is "ELSE" then opened.modifyHead fun frame => { frame with hasElse := true }
  else if token.Is "THEN" then opened.tail
  else opened

/-- The conditionals that are open at the end of the tokens, innermost first. -/
def openIfs (tokens : List Token) : List OpenIf := tokens.foldl OpenIf.step []

/-- The error for a token, given the tokens in front of it. -/
inductive Offends (before : List Token) (token : Token) : CompileError → Prop
  | fault {e : CompileError} : token.Fault e → Offends before token e
  | unmatchedElse : token.Is "ELSE" → openIfs before = [] →
      Offends before token (.unmatchedElse token.location)
  | unmatchedThen : token.Is "THEN" → openIfs before = [] →
      Offends before token (.unmatchedThen token.location)
  | duplicateElse {frame : OpenIf} {outer : List OpenIf} : token.Is "ELSE" →
      openIfs before = frame :: outer → frame.hasElse = true →
      Offends before token (.duplicateElse token.location)
  | elseTooLarge {frame : OpenIf} {outer : List OpenIf} : token.Is "ELSE" →
      openIfs before = frame :: outer → frame.hasElse = false →
      farthestTarget < codeSize before + jumpSize →
      Offends before token (.programTooLarge (codeSize before + jumpSize))
  | thenTooLarge {frame : OpenIf} {outer : List OpenIf} : token.Is "THEN" →
      openIfs before = frame :: outer → farthestTarget < codeSize before →
      Offends before token (.programTooLarge (codeSize before))

/-- No token offends. -/
def Blameless (tokens : List Token) : Prop :=
  ∀ before token rest, tokens = before ++ token :: rest → ∀ e, ¬ Offends before token e

/-- The error of the first token that offends; if none does, that of the innermost conditional that
is still open. -/
def FirstError (tokens : List Token) (e : CompileError) : Prop :=
  (∃ before token rest, tokens = before ++ token :: rest ∧ Blameless before ∧
    Offends before token e) ∨
  (Blameless tokens ∧ ∃ frame outer, openIfs tokens = frame :: outer ∧
    e = .unterminatedIf frame.location)

end Tabletop
