import Tabletop.Proofs.Grammar
import Tabletop.Proofs.Layout

/-!
# The compiler accepts what the grammar says

Reading tokens one by one into a draft is compared with the grammar. What the draft shows of the
tokens read so far (`Draft.Tracks`) decides whether the next one is refused, exactly with the error
that it deserves (`Draft.step_eq_error`). What has been read is spelled by these tokens
(`Draft.Spelled`), and tokens that spell a program are read into it (`Draft.foldlM_step_of_spells`).
The code of that program has the size that the tokens tell, with every target in reach
(`Spells.sound`).
-/

namespace Tabletop

/-! ## The parts of tokens -/

theorem isEncodableName_iff {name : String} :
    isEncodableName name = true ↔ name ≠ "" ∧ IsName name := by
  simp [isEncodableName, IsName]

/-- What the rules say about a token by itself. -/
inductive Token.Plays (token : Token) : Except CompileError Part → Prop
  | leaf {leaf : Leaf} : token.Denotes leaf → Plays token (.ok (.leaf leaf))
  | openIf : token.Is branchName → Plays token (.ok .openIf)
  | orElse : token.Is "ELSE" → Plays token (.ok .orElse)
  | closeIf : token.Is "THEN" → Plays token (.ok .closeIf)
  | fault {e : CompileError} : token.Fault e → Plays token (.error e)

private theorem Token.plays_ofWord {token : Token} {name : String} (h : token.Is name) :
    token.Plays (Part.ofWord token.location name) := by
  unfold Part.ofWord
  by_cases hif : name = branchName
  · rw [if_pos hif]
    exact .openIf (hif ▸ h)
  rw [if_neg hif]
  by_cases helse : name = "ELSE"
  · rw [if_pos helse]
    exact .orElse (helse ▸ h)
  rw [if_neg helse]
  by_cases hthen : name = "THEN"
  · rw [if_pos hthen]
    exact .closeIf (hthen ▸ h)
  rw [if_neg hthen]
  have hmarker : name ∉ markers := by simp [markers, hif, helse, hthen]
  by_cases hjump : name = jumpName
  · rw [if_pos hjump]
    subst hjump
    exact .fault (.reserved h)
  rw [if_neg hjump]
  by_cases hname : isEncodableName name = true
  · rw [if_pos hname]
    obtain ⟨hnonempty, hascii⟩ := isEncodableName_iff.1 hname
    exact .leaf (.word h hmarker hnonempty hascii hjump)
  · rw [if_neg hname]
    refine .fault (.name h hmarker hjump ?_)
    rw [isEncodableName_iff] at hname
    grind

/-- The part of a token is the one the rules give it. -/
theorem Token.plays_ofToken (token : Token) : token.Plays (Part.ofToken token) := by
  obtain ⟨location, kind, payload, lexeme⟩ := token
  cases kind with
  | number =>
    cases payload with
    | number n =>
      simp only [Part.ofToken]
      split
      · rename_i hle
        exact .leaf (.number rfl rfl (UInt64.le_iff_toNat_le.1 hle))
      · rename_i hgt
        rw [UInt64.le_iff_toNat_le] at hgt
        exact .fault (.number rfl rfl (Nat.lt_of_not_le hgt))
    | direction d | bool b | text s => exact .fault (.payload id)
  | direction =>
    cases payload with
    | direction d => exact .leaf (.direction rfl rfl)
    | number n | bool b | text s => exact .fault (.payload id)
  | bool =>
    cases payload with
    | bool b => exact .leaf (.bool rfl rfl)
    | number n | direction d | text s => exact .fault (.payload id)
  | string =>
    cases payload with
    | text s =>
      simp only [Part.ofToken]
      split
      · rename_i hzero
        exact .fault (.string rfl rfl (by simpa using hzero))
      · rename_i hzero
        exact .leaf (.string rfl rfl (by simpa using hzero))
    | number n | direction d | bool b => exact .fault (.payload id)
  | word =>
    cases payload with
    | text name => exact plays_ofWord ⟨rfl, rfl⟩
    | number n | direction d | bool b => exact .fault (.payload id)

private theorem Part.ofToken_of_is {token : Token} {name : String} (h : token.Is name) :
    Part.ofToken token = Part.ofWord token.location name := by
  simp only [Part.ofToken, h.1, h.2]

private theorem Part.ofWord_of_not_marker {location : Location} {name : String}
    (h : name ∉ Token.markers) :
    Part.ofWord location name =
      if name = jumpName then .error (.reservedWord location name)
      else if isEncodableName name then .ok (.leaf (.word name))
      else .error (.invalidWordName location name) := by
  simp only [Token.markers, List.mem_cons, List.not_mem_nil, or_false, not_or] at h
  unfold Part.ofWord
  rw [if_neg h.1, if_neg h.2.1, if_neg h.2.2]

theorem Token.Denotes.ofToken {token : Token} {leaf : Leaf} (h : token.Denotes leaf) :
    Part.ofToken token = .ok (.leaf leaf) := by
  cases h with
  | number hkind hpayload hrange =>
    simp only [Part.ofToken, hkind, hpayload]
    rw [if_pos (UInt64.le_iff_toNat_le.2 hrange)]
  | direction hkind hpayload => simp only [Part.ofToken, hkind, hpayload]
  | bool hkind hpayload => simp only [Part.ofToken, hkind, hpayload]
  | string hkind hpayload hzero =>
    simp only [Part.ofToken, hkind, hpayload]
    rw [if_neg (by simpa using hzero)]
  | word hword hmarker hnonempty hascii hjump =>
    rw [Part.ofToken_of_is hword, Part.ofWord_of_not_marker hmarker, if_neg hjump,
      if_pos (isEncodableName_iff.2 ⟨hnonempty, hascii⟩)]

theorem Token.Fault.ofToken {token : Token} {e : CompileError} (h : token.Fault e) :
    Part.ofToken token = .error e := by
  cases h with
  | payload hfitting =>
    obtain ⟨location, kind, payload, lexeme⟩ := token
    cases kind with
    | number =>
      cases payload with
      | number n => exact absurd trivial hfitting
      | direction d | bool b | text s => rfl
    | direction =>
      cases payload with
      | direction d => exact absurd trivial hfitting
      | number n | bool b | text s => rfl
    | bool =>
      cases payload with
      | bool b => exact absurd trivial hfitting
      | number n | direction d | text s => rfl
    | string | word =>
      cases payload with
      | text s => exact absurd trivial hfitting
      | number n | direction d | bool b => rfl
  | number hkind hpayload hrange =>
    simp only [Part.ofToken, hkind, hpayload]
    rw [if_neg (fun hle => Nat.not_le_of_lt hrange (UInt64.le_iff_toNat_le.1 hle))]
  | string hkind hpayload hzero =>
    simp only [Part.ofToken, hkind, hpayload]
    rw [if_pos (by simpa using hzero)]
  | reserved hword =>
    rw [Part.ofToken_of_is hword, Part.ofWord_of_not_marker (by decide), if_pos rfl]
  | name hword hmarker hjump hinvalid =>
    have hname : ¬ isEncodableName _ = true := fun h =>
      hinvalid.elim (isEncodableName_iff.1 h).1 fun hascii => hascii (isEncodableName_iff.1 h).2
    rw [Part.ofToken_of_is hword, Part.ofWord_of_not_marker hmarker, if_neg hjump, if_neg hname]

private theorem Token.plays_iff {token : Token} {part : Except CompileError Part} :
    token.Plays part ↔ Part.ofToken token = part := by
  constructor
  · intro h
    cases h with
    | leaf hleaf => exact hleaf.ofToken
    | openIf hword => exact Part.ofToken_of_is hword
    | orElse hword => exact Part.ofToken_of_is hword
    | closeIf hword => exact Part.ofToken_of_is hword
    | fault hfault => exact hfault.ofToken
  · rintro rfl
    exact token.plays_ofToken

/-! ## One token -/

theorem Token.Denotes.codeSize {token : Token} {leaf : Leaf} (h : token.Denotes leaf) :
    token.codeSize = leaf.instruction.size := by
  cases h with
  | number hkind hpayload _ => simp only [Token.codeSize, hkind, hpayload]; rfl
  | direction hkind hpayload => simp only [Token.codeSize, hkind, hpayload]; rfl
  | bool hkind hpayload => simp only [Token.codeSize, hkind, hpayload]; rfl
  | string hkind hpayload _ => simp only [Token.codeSize, hkind, hpayload]; rfl
  | word hword hmarker _ _ _ =>
    simp only [markers, List.mem_cons, List.not_mem_nil, or_false, not_or] at hmarker
    simp only [Token.codeSize, hword.1, hword.2]
    rw [if_neg hmarker.1, if_neg hmarker.2.1, if_neg hmarker.2.2]
    rfl

theorem Token.Is.codeSize_if {token : Token} (h : token.Is branchName) :
    token.codeSize = branchSize := by
  simp only [Token.codeSize, h.1, h.2]
  rfl

theorem Token.Is.codeSize_else {token : Token} (h : token.Is "ELSE") :
    token.codeSize = jumpSize := by
  simp only [Token.codeSize, h.1, h.2]
  rfl

theorem Token.Is.codeSize_then {token : Token} (h : token.Is "THEN") : token.codeSize = 0 := by
  simp only [Token.codeSize, h.1, h.2]
  rfl

theorem Token.Is.not {token : Token} {a b : String} (h : token.Is a) (hne : a ≠ b) :
    ¬ token.Is b := fun h' => hne (h.unique h')

private theorem targetAt_of_le {offset : Nat} (h : offset ≤ farthestTarget) :
    targetAt offset = .ok (UInt16.ofNat offset) := if_pos h

private theorem targetAt_of_not_le {offset : Nat} (h : ¬ offset ≤ farthestTarget) :
    targetAt offset = .error (.programTooLarge offset) := if_neg h

namespace Draft

variable {draft draft' : Draft} {token : Token}

theorem step_leaf {leaf : Leaf} (h : token.Denotes leaf) (draft : Draft) :
    draft.step token = .ok ⟨draft.frames, .leaf leaf :: draft.items,
      draft.offset + leaf.instruction.size⟩ := by
  unfold step
  rw [h.ofToken]
  rfl

private theorem step_fault {e : CompileError} (h : token.Fault e) (draft : Draft) :
    draft.step token = .error e := by
  unfold step
  rw [h.ofToken]
  rfl

theorem step_if (h : token.Is branchName) (draft : Draft) :
    draft.step token = .ok ⟨⟨token.location, draft.items, none⟩ :: draft.frames, [],
      draft.offset + branchSize⟩ := by
  unfold step
  rw [Token.plays_iff.1 (.openIf h)]
  rfl

theorem step_else (h : token.Is "ELSE") (draft : Draft) :
    draft.step token =
      match draft.frames with
      | [] => .error (.unmatchedElse token.location)
      | frame :: frames =>
        if frame.yes.isSome then .error (.duplicateElse token.location)
        else if draft.offset + jumpSize ≤ farthestTarget then
          .ok ⟨{ frame with yes := some draft.items.reverse } :: frames, [],
            draft.offset + jumpSize⟩
        else .error (.programTooLarge (draft.offset + jumpSize)) := by
  unfold step
  rw [Token.plays_iff.1 (.orElse h)]
  cases draft.frames with
  | nil => rfl
  | cons frame frames =>
    cases hyes : frame.yes.isSome with
    | true =>
      simp only [bind, Except.bind, hyes]
      rfl
    | false =>
      by_cases hle : draft.offset + jumpSize ≤ farthestTarget
      · simp only [bind, Except.bind, hyes, targetAt_of_le hle, if_pos hle]
        rfl
      · simp only [bind, Except.bind, hyes, targetAt_of_not_le hle, if_neg hle]
        rfl

theorem step_then (h : token.Is "THEN") (draft : Draft) :
    draft.step token =
      match draft.frames with
      | [] => .error (.unmatchedThen token.location)
      | frame :: frames =>
        if draft.offset ≤ farthestTarget then
          .ok ⟨frames, (match frame.yes with
            | none => .ifThen draft.items.reverse
            | some yes => .ifElse yes draft.items.reverse) :: frame.before, draft.offset⟩
        else .error (.programTooLarge draft.offset) := by
  unfold step
  rw [Token.plays_iff.1 (.closeIf h)]
  cases draft.frames with
  | nil => rfl
  | cons frame frames =>
    by_cases hle : draft.offset ≤ farthestTarget
    · simp only [bind, Except.bind, targetAt_of_le hle, if_pos hle]
      rfl
    · simp only [bind, Except.bind, targetAt_of_not_le hle, if_neg hle]

end Draft

/-! ## What a draft shows of its tokens -/

/-- An open conditional as the tokens show it. -/
def Frame.summary (frame : Frame) : OpenIf := ⟨frame.location, frame.yes.isSome⟩

private theorem openIfs_append_singleton (tokens : List Token) (token : Token) :
    openIfs (tokens ++ [token]) = OpenIf.step (openIfs tokens) token := by
  simp [openIfs]

theorem OpenIf.step_if {token : Token} (h : token.Is branchName) (opened : List OpenIf) :
    OpenIf.step opened token = ⟨token.location, false⟩ :: opened := if_pos h

theorem OpenIf.step_else {token : Token} (h : token.Is "ELSE") (opened : List OpenIf) :
    OpenIf.step opened token = opened.modifyHead fun frame => { frame with hasElse := true } := by
  unfold OpenIf.step
  rw [if_neg (h.not (by decide)), if_pos h]

theorem OpenIf.step_then {token : Token} (h : token.Is "THEN") (opened : List OpenIf) :
    OpenIf.step opened token = opened.tail := by
  unfold OpenIf.step
  rw [if_neg (h.not (by decide)), if_neg (h.not (by decide)), if_pos h]

theorem OpenIf.step_leaf {token : Token} (h : token.IsLeaf) (opened : List OpenIf) :
    OpenIf.step opened token = opened := by
  unfold OpenIf.step
  rw [if_neg h.1, if_neg h.2.1, if_neg h.2.2]

namespace Draft

variable {draft draft' : Draft} {token : Token} {tokens : List Token}

/-- The draft has the open conditionals and the offset that the tokens lead to. -/
structure Tracks (draft : Draft) (tokens : List Token) : Prop where
  opened : openIfs tokens = draft.frames.map Frame.summary
  offset : draft.offset = codeSize tokens

private theorem tracks_empty : empty.Tracks [] := ⟨rfl, rfl⟩

private theorem Tracks.frames_nil (h : draft.Tracks tokens) (hopened : openIfs tokens = []) :
    draft.frames = [] := by
  rw [h.opened] at hopened
  exact List.map_eq_nil_iff.1 hopened

private theorem Tracks.frames_cons (h : draft.Tracks tokens) {top : OpenIf} {outer : List OpenIf}
    (hopened : openIfs tokens = top :: outer) :
    ∃ frame frames, draft.frames = frame :: frames ∧ frame.summary = top := by
  rw [h.opened] at hopened
  obtain ⟨frame, frames, hframes, hsummary, _⟩ := List.map_eq_cons_iff.1 hopened
  exact ⟨frame, frames, hframes, hsummary⟩

/-- A token is refused exactly with the error that it deserves after the tokens before it. -/
theorem step_eq_error (h : draft.Tracks tokens) {e : CompileError} :
    draft.step token = .error e ↔ Offends tokens token e := by
  constructor
  · intro hstep
    -- The part of the token decides which of the checks it meets.
    have hplays := token.plays_ofToken
    generalize Part.ofToken token = part at hplays
    cases hplays with
    | leaf hleaf =>
      rw [step_leaf hleaf] at hstep
      cases hstep
    | openIf hif =>
      rw [step_if hif] at hstep
      cases hstep
    | fault hfault =>
      rw [step_fault hfault] at hstep
      cases hstep
      exact .fault hfault
    | orElse helse =>
      rw [step_else helse] at hstep
      have hopened := h.opened
      cases hframes : draft.frames with
      | nil =>
        rw [hframes] at hstep hopened
        cases hstep
        exact .unmatchedElse helse hopened
      | cons frame frames =>
        rw [hframes] at hstep hopened
        dsimp only at hstep
        cases hyes : frame.yes.isSome with
        | true =>
          rw [hyes, if_pos rfl] at hstep
          cases hstep
          exact .duplicateElse helse hopened hyes
        | false =>
          rw [hyes, if_neg (by decide)] at hstep
          split at hstep
          · cases hstep
          · rename_i hfar
            cases hstep
            rw [h.offset] at hfar ⊢
            exact .elseTooLarge helse hopened hyes (Nat.lt_of_not_le hfar)
    | closeIf hthen =>
      rw [step_then hthen] at hstep
      have hopened := h.opened
      cases hframes : draft.frames with
      | nil =>
        rw [hframes] at hstep hopened
        cases hstep
        exact .unmatchedThen hthen hopened
      | cons frame frames =>
        rw [hframes] at hstep hopened
        dsimp only at hstep
        split at hstep
        · cases hstep
        · rename_i hfar
          cases hstep
          rw [h.offset] at hfar ⊢
          exact .thenTooLarge hthen hopened (Nat.lt_of_not_le hfar)
  · intro hoffends
    cases hoffends with
    | fault hfault => exact step_fault hfault draft
    | unmatchedElse helse hopened => rw [step_else helse, h.frames_nil hopened]
    | unmatchedThen hthen hopened => rw [step_then hthen, h.frames_nil hopened]
    | duplicateElse helse hopened hyes =>
      obtain ⟨frame, frames, hframes, rfl⟩ := h.frames_cons hopened
      rw [step_else helse, hframes]
      exact if_pos hyes
    | elseTooLarge helse hopened hyes hfar =>
      obtain ⟨frame, frames, hframes, rfl⟩ := h.frames_cons hopened
      rw [step_else helse, hframes, ← h.offset]
      rw [← h.offset] at hfar
      dsimp only
      rw [if_neg (by simpa [Frame.summary] using hyes), if_neg (Nat.not_le_of_lt hfar)]
    | thenTooLarge hthen hopened hfar =>
      obtain ⟨frame, frames, hframes, _⟩ := h.frames_cons hopened
      rw [step_then hthen, hframes, ← h.offset]
      rw [← h.offset] at hfar
      exact if_neg (Nat.not_le_of_lt hfar)

/-- What a token that is not refused makes of a draft. -/
inductive Takes (token : Token) : Draft → Draft → Prop
  | leaf {leaf : Leaf} {frames : List Frame} {items : List Item} {offset : Nat} :
      token.Denotes leaf →
      Takes token ⟨frames, items, offset⟩
        ⟨frames, .leaf leaf :: items, offset + leaf.instruction.size⟩
  | openIf {frames : List Frame} {items : List Item} {offset : Nat} : token.Is branchName →
      Takes token ⟨frames, items, offset⟩
        ⟨⟨token.location, items, none⟩ :: frames, [], offset + branchSize⟩
  | orElse {location : Location} {frames : List Frame} {before items : List Item} {offset : Nat} :
      token.Is "ELSE" → offset + jumpSize ≤ farthestTarget →
      Takes token ⟨⟨location, before, none⟩ :: frames, items, offset⟩
        ⟨⟨location, before, some items.reverse⟩ :: frames, [], offset + jumpSize⟩
  | closeIf {location : Location} {frames : List Frame} {before items : List Item} {offset : Nat} :
      token.Is "THEN" → offset ≤ farthestTarget →
      Takes token ⟨⟨location, before, none⟩ :: frames, items, offset⟩
        ⟨frames, .ifThen items.reverse :: before, offset⟩
  | closeElse {location : Location} {frames : List Frame} {before yes items : List Item}
      {offset : Nat} : token.Is "THEN" → offset ≤ farthestTarget →
      Takes token ⟨⟨location, before, some yes⟩ :: frames, items, offset⟩
        ⟨frames, .ifElse yes items.reverse :: before, offset⟩

theorem step_eq_ok : draft.step token = .ok draft' ↔ Takes token draft draft' := by
  obtain ⟨frames, items, offset⟩ := draft
  constructor
  · intro hstep
    have hplays := token.plays_ofToken
    generalize Part.ofToken token = part at hplays
    cases hplays with
    | leaf hleaf =>
      rw [step_leaf hleaf] at hstep
      cases hstep
      exact .leaf hleaf
    | openIf hif =>
      rw [step_if hif] at hstep
      cases hstep
      exact .openIf hif
    | fault hfault =>
      rw [step_fault hfault] at hstep
      cases hstep
    | orElse helse =>
      rw [step_else helse] at hstep
      obtain _ | ⟨⟨location, before, _ | yes⟩, frames⟩ := frames
      · cases hstep
      · dsimp only at hstep
        rw [if_neg (by simp)] at hstep
        split at hstep
        · rename_i hle
          cases hstep
          exact .orElse helse hle
        · cases hstep
      · cases hstep
    | closeIf hthen =>
      rw [step_then hthen] at hstep
      obtain _ | ⟨⟨location, before, yes⟩, frames⟩ := frames
      · cases hstep
      · dsimp only at hstep
        split at hstep
        · rename_i hle
          cases hstep
          cases yes with
          | none => exact .closeIf hthen hle
          | some yes => exact .closeElse hthen hle
        · cases hstep
  · intro htakes
    cases htakes with
    | leaf hleaf => exact step_leaf hleaf _
    | openIf hif => exact step_if hif _
    | orElse helse hle => rw [step_else helse]; exact (if_neg (by simp)).trans (if_pos hle)
    | closeIf hthen hle => rw [step_then hthen]; exact if_pos hle
    | closeElse hthen hle => rw [step_then hthen]; exact if_pos hle

theorem Tracks.step (h : draft.Tracks tokens) (hstep : draft.step token = .ok draft') :
    draft'.Tracks (tokens ++ [token]) := by
  have hopened := h.opened
  have hoffset := h.offset
  refine ⟨?_, ?_⟩
  · rw [openIfs_append_singleton, hopened]
    cases step_eq_ok.1 hstep with
    | leaf hleaf => rw [OpenIf.step_leaf hleaf.isLeaf]
    | openIf hif => rw [OpenIf.step_if hif]; rfl
    | orElse helse => rw [OpenIf.step_else helse]; rfl
    | closeIf hthen => rw [OpenIf.step_then hthen]; rfl
    | closeElse hthen => rw [OpenIf.step_then hthen]; rfl
  · rw [codeSize_append, codeSize_cons, codeSize_nil, Nat.add_zero, ← hoffset]
    cases step_eq_ok.1 hstep with
    | leaf hleaf => rw [hleaf.codeSize]
    | openIf hif => rw [hif.codeSize_if]
    | orElse helse => rw [helse.codeSize_else]
    | closeIf hthen => rw [hthen.codeSize_then]; rfl
    | closeElse hthen => rw [hthen.codeSize_then]; rfl

end Draft

/-! ## All tokens -/

section Fold

variable {σ τ ε : Type} {f : σ → τ → Except ε σ}

/-- What holds at the start and is kept by each step holds at the end of a fold that succeeds. -/
theorem foldlM_ok_induction {P : σ → List τ → Prop}
    (hstep : ∀ s s' done t, P s done → f s t = .ok s' → P s' (done ++ [t])) {ts : List τ}
    {s s' : σ} (h : P s []) (hfold : ts.foldlM f s = .ok s') : P s' ts := by
  -- The induction is on the steps to come, for any steps already done.
  have hgeneral : ∀ ts done s, P s done → ts.foldlM f s = .ok s' → P s' (done ++ ts) := by
    intro ts
    induction ts with
    | nil =>
      intro done s hdone hfold
      cases hfold
      simpa using hdone
    | cons t ts ih =>
      intro done s hdone hfold
      rw [List.foldlM_cons] at hfold
      cases hf : f s t with
      | error e =>
        rw [hf] at hfold
        cases hfold
      | ok s₁ =>
        rw [hf] at hfold
        have hts := ih (done ++ [t]) s₁ (hstep s s₁ done t hdone hf) hfold
        simpa using hts
  exact hgeneral ts [] s h hfold

theorem foldlM_cons_of_ok {t : τ} {ts : List τ} {s s' : σ} (h : f s t = .ok s') :
    (t :: ts).foldlM f s = ts.foldlM f s' := by
  rw [List.foldlM_cons, h]
  rfl

theorem foldlM_append_of_ok {front back : List τ} {s s' : σ} (h : front.foldlM f s = .ok s') :
    (front ++ back).foldlM f s = back.foldlM f s' := by
  rw [List.foldlM_append, h]
  rfl

/-- A fold fails exactly if a step does after the steps before it succeed. -/
theorem foldlM_eq_error_iff {ts : List τ} {s : σ} {e : ε} :
    ts.foldlM f s = .error e ↔
      ∃ before t rest s', ts = before ++ t :: rest ∧ before.foldlM f s = .ok s' ∧
        f s' t = .error e := by
  induction ts generalizing s with
  | nil =>
    constructor
    · intro h
      cases h
    · rintro ⟨before, t, rest, s', h, _⟩
      simp at h
  | cons t ts ih =>
    rw [List.foldlM_cons]
    cases hf : f s t with
    | error e' =>
      constructor
      · intro h
        cases h
        exact ⟨[], t, ts, s, rfl, rfl, hf⟩
      · rintro ⟨before, t', rest, s', hts, hbefore, herror⟩
        cases before with
        | nil =>
          cases hts
          cases hbefore
          exact hf.symm.trans herror
        | cons t₁ before =>
          cases hts
          rw [List.foldlM_cons, hf] at hbefore
          cases hbefore
    | ok s₁ =>
      refine Iff.trans ih ?_
      constructor
      · rintro ⟨before, t', rest, s', hts, hbefore, herror⟩
        refine ⟨t :: before, t', rest, s', by rw [hts]; rfl, ?_, herror⟩
        rw [List.foldlM_cons, hf]
        exact hbefore
      · rintro ⟨before, t', rest, s', hts, hbefore, herror⟩
        cases before with
        | nil =>
          cases hts
          cases hbefore
          rw [hf] at herror
          cases herror
        | cons t₁ before =>
          cases hts
          rw [List.foldlM_cons, hf] at hbefore
          exact ⟨before, t', rest, s', rfl, hbefore, herror⟩

end Fold

namespace Draft

variable {draft : Draft} {tokens : List Token}

private theorem tracks_of_foldlM (h : tokens.foldlM step empty = .ok draft) : draft.Tracks tokens :=
  foldlM_ok_induction (P := Tracks) (fun _ _ _ _ htracks hstep => htracks.step hstep)
    tracks_empty h

private theorem foldlM_eq_error {e : CompileError} :
    tokens.foldlM step empty = .error e ↔
      ∃ before token rest, tokens = before ++ token :: rest ∧
        (∃ draft, before.foldlM step empty = .ok draft) ∧ Offends before token e := by
  rw [foldlM_eq_error_iff]
  constructor
  · rintro ⟨before, token, rest, draft, htokens, hbefore, herror⟩
    exact ⟨before, token, rest, htokens, ⟨draft, hbefore⟩,
      (step_eq_error (tracks_of_foldlM hbefore)).1 herror⟩
  · rintro ⟨before, token, rest, htokens, ⟨draft, hbefore⟩, hoffends⟩
    exact ⟨before, token, rest, draft, htokens, hbefore,
      (step_eq_error (tracks_of_foldlM hbefore)).2 hoffends⟩

/-- Tokens are read to the end exactly if none offends. -/
theorem foldlM_eq_ok_iff_blameless :
    (∃ draft, tokens.foldlM step empty = .ok draft) ↔ Blameless tokens := by
  constructor
  · rintro ⟨draft, hfold⟩ before token rest rfl e hoffends
    -- The tokens before the offender are read to the end too, so the offender would be refused.
    cases hbefore : before.foldlM step empty with
    | ok draft' =>
      have herror := foldlM_eq_error.2 ⟨before, token, rest, rfl, ⟨draft', hbefore⟩, hoffends⟩
      rw [hfold] at herror
      cases herror
    | error e' =>
      rw [List.foldlM_append, hbefore] at hfold
      cases hfold
  · intro hblameless
    cases hfold : tokens.foldlM step empty with
    | ok draft => exact ⟨draft, rfl⟩
    | error e =>
      obtain ⟨before, token, rest, htokens, _, hoffends⟩ := foldlM_eq_error.1 hfold
      exact absurd hoffends (hblameless before token rest htokens e)

/-! ## Drafts and the grammar -/

/-- The tokens spell the frames and items of a draft: what stands in front of each open conditional,
its bodies as far as they go, and the items of the innermost one. -/
inductive Spelled : List Token → List Frame → List Item → Prop
  | flat {tokens : List Token} {items : List Item} :
      Spells tokens items.reverse → Spelled tokens [] items
  | inIf {outer body : List Token} {opener : Token} {frames : List Frame}
      {before items : List Item} : Spelled outer frames before → opener.Is branchName →
      Spells body items.reverse →
      Spelled (outer ++ opener :: body) (⟨opener.location, before, none⟩ :: frames) items
  | inElse {outer yes no : List Token} {opener middle : Token} {frames : List Frame}
      {before items : List Item} {first : Program} : Spelled outer frames before →
      opener.Is branchName → Spells yes first → middle.Is "ELSE" → Spells no items.reverse →
      Spelled (outer ++ opener :: (yes ++ middle :: no))
        (⟨opener.location, before, some first⟩ :: frames) items

/-- More items can be added to the innermost body. -/
theorem Spelled.append {front back : List Token} {frames : List Frame} {items : List Item}
    {program : Program} (h : Spelled front frames items) (hback : Spells back program) :
    Spelled (front ++ back) frames (program.reverse ++ items) := by
  have hitems : (program.reverse ++ items).reverse = items.reverse ++ program := by simp
  cases h with
  | flat hflat => exact .flat (hitems ▸ hflat.append hback)
  | inIf houter hif hbody =>
    rw [List.append_assoc, List.cons_append]
    exact .inIf houter hif (hitems ▸ hbody.append hback)
  | inElse houter hif hyes helse hno =>
    rw [List.append_assoc, List.cons_append, List.append_assoc, List.cons_append]
    exact .inElse houter hif hyes helse (hitems ▸ hno.append hback)

theorem Spelled.step {tokens : List Token} {token : Token} {draft draft' : Draft}
    (h : Spelled tokens draft.frames draft.items) (hstep : draft.step token = .ok draft') :
    Spelled (tokens ++ [token]) draft'.frames draft'.items := by
  cases step_eq_ok.1 hstep with
  | leaf hleaf => exact h.append (.leaf hleaf .nil)
  | openIf hif => exact .inIf h hif .nil
  | orElse helse =>
    cases h with
    | inIf houter hif hbody =>
      rw [List.append_assoc, List.cons_append]
      exact .inElse houter hif hbody helse .nil
  | closeIf hthen =>
    cases h with
    | inIf houter hif hbody =>
      rw [List.append_assoc, List.cons_append]
      exact houter.append (.ifThen hif hbody hthen .nil)
  | closeElse hthen =>
    cases h with
    | inElse houter hif hyes helse hno =>
      rw [List.append_assoc, List.cons_append, List.append_assoc, List.cons_append]
      exact houter.append (.ifElse hif hyes helse hno hthen .nil)

private theorem spelled_of_foldlM (h : tokens.foldlM step empty = .ok draft) :
    Spelled tokens draft.frames draft.items :=
  foldlM_ok_induction (P := fun draft tokens => Spelled tokens draft.frames draft.items)
    (fun _ _ _ _ hspelled hstep => hspelled.step hstep) (.flat .nil) h

private theorem inReach_of_foldlM (h : tokens.foldlM step empty = .ok draft) :
    InReach 0 tokens := by
  have hinv : draft.Tracks tokens ∧ InReach 0 tokens := by
    refine foldlM_ok_induction (P := fun draft tokens => draft.Tracks tokens ∧ InReach 0 tokens)
      (fun draft draft' done token hdone hstep => ⟨hdone.1.step hstep, ?_⟩)
      ⟨tracks_empty, inReach_nil 0⟩ h
    refine inReach_append.2 ⟨hdone.2, inReach_cons.2 ⟨fun hmark => ?_, inReach_nil _⟩⟩
    -- The offset after the token is the one that the step has checked.
    have hoffset := (hdone.1.step hstep).offset
    rw [codeSize_append, codeSize_cons, codeSize_nil, Nat.add_zero] at hoffset
    rw [Nat.zero_add, ← hoffset]
    cases step_eq_ok.1 hstep with
    | leaf hleaf => exact (hmark.elim hleaf.isLeaf.2.1 hleaf.isLeaf.2.2).elim
    | openIf hif => exact (hmark.elim (hif.not (by decide)) (hif.not (by decide))).elim
    | orElse _ hle => exact hle
    | closeIf _ hle => exact hle
    | closeElse _ hle => exact hle
  exact hinv.2

/-- Tokens that spell a program are read into it, behind whatever was read before. -/
theorem foldlM_step_of_spells {program : Program} (h : Spells tokens program) (draft : Draft)
    (hreach : InReach draft.offset tokens) :
    tokens.foldlM step draft =
      .ok ⟨draft.frames, program.reverse ++ draft.items, draft.offset + codeSize tokens⟩ := by
  induction h generalizing draft with
  | nil => rfl
  | leaf hleaf _ ih =>
    rw [inReach_cons, hleaf.codeSize] at hreach
    rw [foldlM_cons_of_ok (step_leaf hleaf draft), ih _ hreach.2]
    simp [hleaf.codeSize, Nat.add_assoc]
  | ifThen hif _ hthen _ ihbody ih =>
    rw [inReach_cons, inReach_append, inReach_cons, hif.codeSize_if, hthen.codeSize_then,
      Nat.add_zero] at hreach
    obtain ⟨_, hbody, hend, hrest⟩ := hreach
    -- The body is read into a draft with one more frame, which the `THEN` takes off again.
    refine (foldlM_cons_of_ok (step_if hif draft)).trans ?_
    refine (foldlM_append_of_ok (ihbody _ hbody)).trans ?_
    refine (foldlM_cons_of_ok (step_eq_ok.2 (.closeIf hthen (hend (.inr hthen))))).trans ?_
    refine (ih _ hrest).trans ?_
    simp [hif.codeSize_if, hthen.codeSize_then, Nat.add_assoc]
  | ifElse hif _ helse _ hthen _ ihyes ihno ih =>
    rw [inReach_cons, inReach_append, inReach_cons, inReach_append, inReach_cons, hif.codeSize_if,
      helse.codeSize_else, hthen.codeSize_then, Nat.add_zero] at hreach
    obtain ⟨_, hyes, hmiddle, hno, hend, hrest⟩ := hreach
    refine (foldlM_cons_of_ok (step_if hif draft)).trans ?_
    refine (foldlM_append_of_ok (ihyes _ hyes)).trans ?_
    refine (foldlM_cons_of_ok (step_eq_ok.2 (.orElse helse (hmiddle (.inl helse))))).trans ?_
    refine (foldlM_append_of_ok (ihno _ hno)).trans ?_
    refine (foldlM_cons_of_ok (step_eq_ok.2 (.closeElse hthen (hend (.inr hthen))))).trans ?_
    refine (ih _ hrest).trans ?_
    simp [hif.codeSize_if, helse.codeSize_else, hthen.codeSize_then, Nat.add_assoc]

/-! ## Programs -/

theorem finish_eq_ok {program : Program} :
    draft.finish = .ok program ↔ draft.frames = [] ∧ draft.items.reverse = program := by
  unfold finish
  cases draft.frames with
  | nil => simp
  | cons frame frames => simp

theorem finish_eq_error {e : CompileError} :
    draft.finish = .error e ↔
      ∃ frame frames, draft.frames = frame :: frames ∧ e = .unterminatedIf frame.location := by
  unfold finish
  cases draft.frames with
  | nil => simp
  | cons frame frames => simp [eq_comm]

end Draft

/-- Tokens are read into a program exactly if they spell it and all its targets are in reach. -/
theorem Program.ofTokens_eq_ok {tokens : List Token} {program : Program} :
    Program.ofTokens tokens = .ok program ↔ Spells tokens program ∧ InReach 0 tokens := by
  constructor
  · intro h
    cases hfold : tokens.foldlM Draft.step Draft.empty with
    | error e =>
      rw [Program.ofTokens, hfold] at h
      cases h
    | ok draft =>
      rw [Program.ofTokens, hfold] at h
      obtain ⟨hframes, rfl⟩ := Draft.finish_eq_ok.1 h
      refine ⟨?_, Draft.inReach_of_foldlM hfold⟩
      have hspelled := Draft.spelled_of_foldlM hfold
      rw [hframes] at hspelled
      cases hspelled with
      | flat hspells => exact hspells
  · rintro ⟨hspells, hreach⟩
    rw [Program.ofTokens, Draft.foldlM_step_of_spells hspells Draft.empty hreach]
    simp [Draft.finish, Draft.empty, bind, Except.bind]

theorem Program.ofTokens_eq_error {tokens : List Token} {e : CompileError} :
    Program.ofTokens tokens = .error e ↔ FirstError tokens e := by
  unfold FirstError
  constructor
  · intro h
    cases hfold : tokens.foldlM Draft.step Draft.empty with
    | error e' =>
      rw [Program.ofTokens, hfold] at h
      cases h
      obtain ⟨before, token, rest, htokens, hbefore, hoffends⟩ := Draft.foldlM_eq_error.1 hfold
      have hblameless := Draft.foldlM_eq_ok_iff_blameless.1 hbefore
      exact .inl ⟨before, token, rest, htokens, hblameless, hoffends⟩
    | ok draft =>
      rw [Program.ofTokens, hfold] at h
      obtain ⟨frame, frames, hframes, rfl⟩ := Draft.finish_eq_error.1 h
      refine .inr ⟨Draft.foldlM_eq_ok_iff_blameless.1 ⟨draft, hfold⟩, frame.summary,
        frames.map Frame.summary, ?_, rfl⟩
      rw [(Draft.tracks_of_foldlM hfold).opened, hframes, List.map_cons]
  · rintro (⟨before, token, rest, htokens, hbefore, hoffends⟩ |
      ⟨hblameless, top, outer, hopened, rfl⟩)
    · rw [← Draft.foldlM_eq_ok_iff_blameless] at hbefore
      rw [Program.ofTokens,
        Draft.foldlM_eq_error.2 ⟨before, token, rest, htokens, hbefore, hoffends⟩]
      rfl
    · obtain ⟨draft, hfold⟩ := Draft.foldlM_eq_ok_iff_blameless.2 hblameless
      obtain ⟨frame, frames, hframes, rfl⟩ := (Draft.tracks_of_foldlM hfold).frames_cons hopened
      rw [Program.ofTokens, hfold]
      exact Draft.finish_eq_error.2 ⟨frame, frames, hframes, rfl⟩

/-! ## The code of tokens -/

theorem Token.Denotes.encodable {token : Token} {leaf : Leaf} (h : token.Denotes leaf) :
    leaf.instruction.Encodable := by
  cases h with
  | number | direction | bool => exact trivial
  | string _ _ hzero => exact hzero
  | word _ hmarker _ hname hjump =>
    exact ⟨hname, fun hif => hmarker (by simp [markers, hif]), hjump⟩

theorem Spells.size_eq {tokens : List Token} {program : Program} (h : Spells tokens program) :
    Program.size program = codeSize tokens := by
  induction h with
  | nil => rfl
  | leaf hleaf _ ih => rw [Program.size, Item.size, codeSize_cons, hleaf.codeSize, ih]
  | ifThen hif _ hthen _ ihbody ih =>
    rw [Program.size, Item.size, codeSize_cons, codeSize_append, codeSize_cons, hif.codeSize_if,
      hthen.codeSize_then, ihbody, ih]
    omega
  | ifElse hif _ helse _ hthen _ ihyes ihno ih =>
    rw [Program.size, Item.size, codeSize_cons, codeSize_append, codeSize_cons, codeSize_append,
      codeSize_cons, hif.codeSize_if, helse.codeSize_else, hthen.codeSize_then, ihyes, ihno, ih]
    omega

/-- If the tokens fix offsets in reach only, then so does the program that they spell. -/
theorem Spells.sound {tokens : List Token} {program : Program} {offset : Nat}
    (h : Spells tokens program) (hreach : InReach offset tokens) :
    Program.Sound offset program := by
  induction h generalizing offset with
  | nil => rw [Program.Sound]; exact trivial
  | leaf hleaf _ ih =>
    rw [inReach_cons, hleaf.codeSize] at hreach
    rw [Program.Sound, Item.Sound]
    exact ⟨hleaf.encodable, ih hreach.2⟩
  | ifThen hif hbody hthen _ ihbody ih =>
    rw [inReach_cons, inReach_append, inReach_cons, hif.codeSize_if, hthen.codeSize_then,
      Nat.add_zero, ← hbody.size_eq] at hreach
    obtain ⟨_, hinner, hend, hrest⟩ := hreach
    rw [Program.Sound, Item.Sound, Item.size, ← Nat.add_assoc]
    exact ⟨⟨ihbody hinner, hend (.inr hthen)⟩, ih hrest⟩
  | ifElse hif hyes helse hno hthen _ ihyes ihno ih =>
    rw [inReach_cons, inReach_append, inReach_cons, inReach_append, inReach_cons, hif.codeSize_if,
      helse.codeSize_else, hthen.codeSize_then, Nat.add_zero, ← hyes.size_eq,
      ← hno.size_eq] at hreach
    obtain ⟨_, hfirst, hmiddle, hsecond, hend, hrest⟩ := hreach
    rw [Program.Sound, Item.Sound, Item.size, ← Nat.add_assoc, ← Nat.add_assoc, ← Nat.add_assoc]
    exact ⟨⟨ihyes hfirst, hmiddle (.inl helse), ihno hsecond, hend (.inr hthen)⟩, ih hrest⟩

theorem compile_eq_ok {tokens : List Token} {code : Code} :
    compile tokens = .ok code ↔ ∃ program, Program.ofTokens tokens = .ok program ∧
      code = program.code := by
  unfold compile
  cases Program.ofTokens tokens with
  | error e => simp [bind, Except.bind]
  | ok program => simp [bind, Except.bind, pure, Except.pure, eq_comm]

theorem compile_eq_error {tokens : List Token} {e : CompileError} :
    compile tokens = .error e ↔ Program.ofTokens tokens = .error e := by
  unfold compile
  cases Program.ofTokens tokens with
  | error e' => simp [bind, Except.bind]
  | ok program => simp [bind, Except.bind, pure, Except.pure]

/-- The tokens that can be compiled are those that are valid, derive from the grammar, and lead to
no offset out of reach. All others are refused with the error of the first token that offends, or
else with that of the innermost conditional left open. The offsets are counted by `codeSize`, which
is the length of the code. -/
theorem compile_accepts (tokens : List Token) :
    ((∃ code, compile tokens = .ok code) ↔
      (∀ token ∈ tokens, token.Valid) ∧ Derives tokens ∧ InReach 0 tokens) ∧
    (∀ e, compile tokens = .error e ↔ FirstError tokens e) ∧
    (∀ code, compile tokens = .ok code → code.length = codeSize tokens) := by
  refine ⟨?_, fun e => ?_, fun code hcompile => ?_⟩
  · constructor
    · rintro ⟨code, hcompile⟩
      obtain ⟨program, hprogram, _⟩ := compile_eq_ok.1 hcompile
      obtain ⟨hspells, hreach⟩ := Program.ofTokens_eq_ok.1 hprogram
      exact ⟨hspells.valid, hspells.derives, hreach⟩
    · rintro ⟨hvalid, hderives, hreach⟩
      obtain ⟨program, hspells⟩ := hderives.spells hvalid
      exact ⟨_, compile_eq_ok.2 ⟨program, Program.ofTokens_eq_ok.2 ⟨hspells, hreach⟩, rfl⟩⟩
  · rw [compile_eq_error, Program.ofTokens_eq_error]
  · obtain ⟨program, hprogram, rfl⟩ := compile_eq_ok.1 hcompile
    rw [Program.length_code, (Program.ofTokens_eq_ok.1 hprogram).1.size_eq]

/-- A conditional with an empty body. -/
theorem compile_accepts_conditional :
    let tokens : List Token := [.ofWord "IF" .unspecified, .ofWord "THEN" .unspecified]
    ∃ code, compile tokens = .ok code ∧ code.length = codeSize tokens := by
  intro tokens
  have hcompile : compile tokens = .ok [1, 73, 70, 0, 0, 6] := rfl
  exact ⟨_, hcompile, (compile_accepts tokens).2.2 _ hcompile⟩

end Tabletop
