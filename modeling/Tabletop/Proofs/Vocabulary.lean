import Mathlib.Data.Finset.Card
import Mathlib.Data.List.Sort
import Tabletop.Machine.Run
import Tabletop.Proofs.Effect
import Tabletop.Proofs.TextOrder

/-!
# What a machine knows

Words are added one after another, and each takes the place of an earlier one of its name. Of this
history nothing remains but the last word of every name (`find?_ofHistory`). The listing of a
dictionary is made from what can be looked up in it, in whatever order the words were added and are
kept (`listing_eq_of_lookup`). It has a row for every name, in the order of the bytes of the names,
and its columns are aligned: they are as wide as the longest text in bytes, which is never less than
in characters (`exists_listedAs`).
-/

namespace Tabletop

namespace Dictionary

/-! ## Entries -/

/-- The names under which words are known. -/
def names (dictionary : Dictionary) : List String := dictionary.entries.map Prod.fst

private theorem find?_eq_some {dictionary : Dictionary} {name : String} {word : Word} :
    dictionary.find? name = some word ↔ (name, word) ∈ dictionary.entries := by
  constructor
  · intro h
    obtain ⟨⟨name', word'⟩, hfind, rfl⟩ := Option.map_eq_some_iff.1 h
    have hname := List.find?_some hfind
    obtain rfl : name' = name := by simpa using hname
    exact List.mem_of_find?_eq_some hfind
  · intro h
    cases hfind : dictionary.entries.find? (·.1 == name) with
    | none =>
      have hnone := List.find?_eq_none.1 hfind _ h
      simp at hnone
    | some entry =>
      have hname := List.find?_some hfind
      -- Names are distinct, so this is the entry that was found.
      have heq : entry = (name, word) :=
        List.inj_on_of_nodup_map dictionary.nodup (List.mem_of_find?_eq_some hfind) h
          (by simpa using hname)
      rw [find?, hfind, heq]
      rfl

private theorem nodup_names (dictionary : Dictionary) : dictionary.names.Nodup := dictionary.nodup

private theorem mem_names {dictionary : Dictionary} {name : String} :
    name ∈ dictionary.names ↔ ∃ word, dictionary.find? name = some word := by
  simp only [names, List.mem_map, find?_eq_some, Prod.exists, exists_and_right, exists_eq_right]

/-! ## Histories -/

/-- The dictionary after some words were added, one after another. -/
def ofHistory (history : List Word) : Dictionary :=
  history.foldl (fun dictionary word => dictionary.insert word.name word) empty

private theorem ofHistory_concat (history : List Word) (word : Word) :
    ofHistory (history ++ [word]) = (ofHistory history).insert word.name word :=
  List.foldl_concat _ _ _ _

private theorem find?_ofHistory (history : List Word) (name : String) :
    (ofHistory history).find? name = history.reverse.find? (·.name == name) := by
  induction history using List.reverseRecOn with
  | nil => rfl
  | append_singleton history word ih =>
    rw [ofHistory_concat, List.reverse_concat, List.find?_cons]
    by_cases hname : word.name = name
    · subst hname
      rw [find?_insert_self, beq_self_eq_true]
    · have hbeq : (word.name == name) = false := by simpa using hname
      rw [find?_insert_of_ne _ _ hname, ih, hbeq]

private theorem mem_names_ofHistory {history : List Word} {name : String} :
    name ∈ (ofHistory history).names ↔ name ∈ history.map fun word => word.name := by
  rw [mem_names, find?_ofHistory, ← Option.isSome_iff_exists, List.find?_isSome]
  simp

/-- A name counts once, however often it was given a word. -/
theorem size_ofHistory (history : List Word) :
    (ofHistory history).size = (history.map fun word => word.name).toFinset.card := by
  have hnames : (ofHistory history).names.toFinset =
      (history.map fun word => word.name).toFinset := by
    ext name
    rw [List.mem_toFinset, List.mem_toFinset, mem_names_ofHistory]
  rw [← hnames, List.toFinset_card_of_nodup (nodup_names _), names, List.length_map, size]

/-- Every word is known under its own name. -/
def OwnNames (dictionary : Dictionary) : Prop :=
  ∀ name word, dictionary.find? name = some word → word.name = name

private theorem ofHistory_ownNames (history : List Word) : (ofHistory history).OwnNames := by
  intro name word h
  rw [find?_ofHistory] at h
  have hname := List.find?_some h
  simpa using hname

/-! ## The words in order -/

section Sorted

variable {dictionary : Dictionary}

private theorem mem_sorted (hown : dictionary.OwnNames) {word : Word} :
    word ∈ dictionary.sorted ↔ dictionary.find? word.name = some word := by
  rw [sorted, List.mem_mergeSort, List.mem_map, find?_eq_some]
  constructor
  · rintro ⟨⟨name, word⟩, hmem, rfl⟩
    rwa [hown name word (find?_eq_some.2 hmem)]
  · intro hmem
    exact ⟨_, hmem, rfl⟩

private theorem nodup_sorted (hown : dictionary.OwnNames) :
    (dictionary.sorted.map fun word => word.name).Nodup := by
  have hnames : (dictionary.entries.map Prod.snd).map (fun word => word.name) =
      dictionary.names := by
    rw [List.map_map, names, List.map_inj_left]
    rintro ⟨name, word⟩ hmem
    exact hown name word (find?_eq_some.2 hmem)
  have hperm := (List.mergeSort_perm (dictionary.entries.map Prod.snd)
    fun a b => a.name ≤ b.name).map fun word => word.name
  rw [hnames] at hperm
  exact hperm.nodup_iff.2 dictionary.nodup_names

private theorem sorted_ordered (hown : dictionary.OwnNames) :
    (dictionary.sorted.map fun word => word.name).Pairwise Text.Precedes := by
  have hle : dictionary.sorted.Pairwise fun a b => a.name ≤ b.name := by
    refine (List.pairwise_mergeSort ?_ ?_ _).imp of_decide_eq_true
    · intro a b c hab hbc
      exact decide_eq_true (String.le_trans (of_decide_eq_true hab) (of_decide_eq_true hbc))
    · intro a b
      simpa using String.le_total a.name b.name
  have hne := List.pairwise_map.1 (nodup_sorted hown)
  refine List.pairwise_map.2 ((hle.and hne).imp ?_)
  rintro a b ⟨hab, hdistinct⟩
  refine Text.precedes_of_lt (String.not_le.1 fun hba => hdistinct ?_)
  exact String.le_antisymm hab hba

private theorem mem_names_sorted (hown : dictionary.OwnNames) {name : String} :
    name ∈ dictionary.sorted.map (fun word => word.name) ↔ name ∈ dictionary.names := by
  rw [List.mem_map, mem_names]
  constructor
  · rintro ⟨word, hmem, rfl⟩
    exact ⟨word, (mem_sorted hown).1 hmem⟩
  · rintro ⟨word, hfind⟩
    obtain rfl := hown name word hfind
    exact ⟨word, (mem_sorted hown).2 hfind, rfl⟩

end Sorted

/-! ## The listing -/

/-- What the listing shows of a word. -/
def shown (word : Word) : String × String × String :=
  (word.name, word.signature, word.description)

section Lookup

variable {a b : Dictionary}

/-- The same names are in the same order. -/
theorem names_sorted_eq (ha : a.OwnNames) (hb : b.OwnNames)
    (h : ∀ name, name ∈ a.names ↔ name ∈ b.names) :
    a.sorted.map (fun word => word.name) = b.sorted.map fun word => word.name := by
  refine List.Pairwise.eq_of_mem_iff (sorted_ordered ha) (sorted_ordered hb) fun name => ?_
  rw [mem_names_sorted ha, mem_names_sorted hb, h]

/-- What is shown of the words can be looked up under their names. -/
theorem map_shown_sorted (ha : a.OwnNames) :
    (a.sorted.map shown).map some =
      (a.sorted.map fun word => word.name).map fun name => (a.find? name).map shown := by
  rw [List.map_map, List.map_map, List.map_inj_left]
  intro word hmem
  simp only [Function.comp_apply, (mem_sorted ha).1 hmem, Option.map_some]

private theorem length_sorted (dictionary : Dictionary) :
    dictionary.sorted.length = dictionary.size := by
  rw [sorted, List.length_mergeSort, List.length_map, size]

/-- The listing is made from what is shown. -/
theorem listing_eq_of_shown (h : a.sorted.map shown = b.sorted.map shown) :
    a.listing = b.listing := by
  have hmap : ∀ {β : Type} (f : String × String × String → β),
      a.sorted.map (fun word => f (shown word)) = b.sorted.map fun word => f (shown word) := by
    intro β f
    have hcolumns := congrArg (List.map f) h
    rwa [List.map_map, List.map_map] at hcolumns
  have hsize : a.size = b.size := by
    rw [← length_sorted, ← length_sorted, ← List.length_map shown, h, List.length_map]
  have hnames : a.sorted.map (fun word => word.name.utf8ByteSize) = _ :=
    hmap fun columns => columns.1.utf8ByteSize
  have hsignatures : a.sorted.map (fun word => word.signature.utf8ByteSize) = _ :=
    hmap fun columns => columns.2.1.utf8ByteSize
  have hrows : ∀ nameWidth signatureWidth, a.sorted.map (row nameWidth signatureWidth) = _ :=
    fun nameWidth signatureWidth => hmap fun columns =>
      column nameWidth columns.1 ++ "  " ++ column signatureWidth columns.2.1 ++ "  --  " ++
        columns.2.2 ++ "\n"
  simp only [listing, hsize, hnames, hsignatures, hrows]
  rfl

private theorem listing_eq_of_lookup (ha : a.OwnNames) (hb : b.OwnNames)
    (h : ∀ name, (a.find? name).map shown = (b.find? name).map shown) :
    a.listing = b.listing := by
  have hnames : ∀ name, name ∈ a.names ↔ name ∈ b.names := by
    intro name
    rw [mem_names, mem_names, ← Option.isSome_iff_exists, ← Option.isSome_iff_exists,
      ← Option.isSome_map (f := shown), h, Option.isSome_map]
  -- Row by row, what is shown is a function of the name, and the names are the same.
  refine listing_eq_of_shown (List.map_injective_iff.2 (Option.some_injective _) ?_)
  rw [map_shown_sorted ha, map_shown_sorted hb, names_sorted_eq ha hb hnames, funext h]

end Lookup

/-! ## Columns -/

private theorem le_foldl_max (lengths : List Nat) (m : Nat) :
    m ≤ lengths.foldl max m ∧ ∀ n ∈ lengths, n ≤ lengths.foldl max m := by
  induction lengths generalizing m with
  | nil => simp
  | cons length lengths ih =>
    obtain ⟨hle, hall⟩ := ih (max m length)
    rw [List.foldl_cons, List.forall_mem_cons]
    exact ⟨by omega, by omega, hall⟩

private theorem le_widest {lengths : List Nat} {n : Nat} (h : n ∈ lengths) : n ≤ widest lengths :=
  (le_foldl_max lengths 0).2 n h

private theorem toList_column (text : String) (m : Nat) :
    (column (text.length + m) text).toList = text.toList ++ List.replicate m ' ' := by
  rw [column, Text.padEnd, String.toList_ofList, String.length_toList, Nat.add_sub_cancel_left]

/-- In the row of the word both columns are filled up with blanks, each to its width. So the
description begins at a place that depends on the widths only. -/
def Aligned (nameWidth signatureWidth : Nat) (word : Word) : Prop :=
  ∃ front, (row nameWidth signatureWidth word).toList =
      front ++ word.description.toList ++ ['\n'] ∧
    front.length = nameWidth + signatureWidth + 8 ∧
    ∃ m n, word.name.length + m = nameWidth ∧ word.signature.length + n = signatureWidth ∧
      front = word.name.toList ++ List.replicate m ' ' ++ "  ".toList ++
        (word.signature.toList ++ List.replicate n ' ') ++ "  --  ".toList

private theorem aligned_of_le {nameWidth signatureWidth : Nat} {word : Word}
    (hname : word.name.length ≤ nameWidth) (hsignature : word.signature.length ≤ signatureWidth) :
    Aligned nameWidth signatureWidth word := by
  obtain ⟨m, rfl⟩ := Nat.exists_eq_add_of_le hname
  obtain ⟨n, rfl⟩ := Nat.exists_eq_add_of_le hsignature
  refine ⟨_, ?_, ?_, m, n, rfl, rfl, rfl⟩
  · simp [row, toList_column]
  · have hgap : "  ".length = 2 := rfl
    have hdash : "  --  ".length = 6 := rfl
    simp only [List.length_append, List.length_replicate, String.length_toList, hgap, hdash]
    omega

/-- The listing has a row for each of the words, which are all that are known, in the order of their
names, and with the columns aligned. -/
structure ListedAs (dictionary : Dictionary) (words : List Word) (nameWidth signatureWidth : Nat) :
    Prop where
  text : dictionary.listing = Text.showNat words.length ++ " words defined.\n\n" ++
    String.join (words.map (row nameWidth signatureWidth))
  known : ∀ word, word ∈ words ↔ dictionary.find? word.name = some word
  ordered : (words.map fun word => word.name).Pairwise Text.Precedes
  aligned : ∀ word ∈ words, Aligned nameWidth signatureWidth word

private theorem exists_listedAs {dictionary : Dictionary} (hown : dictionary.OwnNames) :
    ∃ words nameWidth signatureWidth, dictionary.ListedAs words nameWidth signatureWidth := by
  refine ⟨dictionary.sorted, widest (dictionary.sorted.map fun word => word.name.utf8ByteSize),
    widest (dictionary.sorted.map fun word => word.signature.utf8ByteSize), ?_,
    fun word => mem_sorted hown, sorted_ordered hown, ?_⟩
  · rw [length_sorted]
    rfl
  · intro word hmem
    refine aligned_of_le ?_ ?_
    · exact Nat.le_trans (Text.length_le_utf8ByteSize _) (le_widest (List.mem_map_of_mem hmem))
    · exact Nat.le_trans (Text.length_le_utf8ByteSize _) (le_widest (List.mem_map_of_mem hmem))

end Dictionary

/-! ## Adding words to a machine -/

private theorem forM_define (history : List Word) (machine : Machine) :
    history.forM Exec.define machine = .ok ⟨⟩ { machine with
      dictionary := history.foldl (fun d word => d.insert word.name word) machine.dictionary } := by
  induction history generalizing machine with
  | nil => rfl
  | cons word history ih => exact ih _

end Tabletop
