import Tabletop.Word

/-!
# Dictionaries

The words that are known, each under one name. A word takes the place of an earlier one of the same
name.
-/

namespace Tabletop

/-- Words under distinct names. -/
structure Dictionary where
  entries : List (String × Word)
  nodup : (entries.map Prod.fst).Nodup

namespace Dictionary

def empty : Dictionary := ⟨[], List.nodup_nil⟩

def size (dictionary : Dictionary) : Nat := dictionary.entries.length

/-- The word known under the name. -/
def find? (dictionary : Dictionary) (name : String) : Option Word :=
  (dictionary.entries.find? (·.1 == name)).map Prod.snd

/-- Make a word known under the name. -/
def insert (dictionary : Dictionary) (name : String) (word : Word) : Dictionary where
  entries := (name, word) :: dictionary.entries.filter (·.1 != name)
  nodup := by
    rw [List.map_cons, List.nodup_cons]
    refine ⟨?_, dictionary.nodup.sublist (List.filter_sublist.map _)⟩
    simp only [List.mem_map, List.mem_filter, bne_iff_ne]
    rintro ⟨entry, ⟨_, hne⟩, heq⟩
    exact hne heq

/-- The built-in words of some families. -/
def ofGroups (groups : List Builtin.Group) : Dictionary :=
  (groups.flatMap Builtin.Group.words).foldl (fun d b => d.insert b.name b.word) empty

/-! ## The listing -/

/-- The largest of some lengths, 0 if there are none. -/
def widest (lengths : List Nat) : Nat := lengths.foldl max 0

/-- The words in the order of their names. -/
def sorted (dictionary : Dictionary) : List Word :=
  (dictionary.entries.map Prod.snd).mergeSort fun a b => a.name ≤ b.name

/-- The text with blanks behind it up to a width in characters. -/
def column (width : Nat) (text : String) : String :=
  String.ofList (Text.padEnd width ' ' text.toList)

/-- A line of the listing, with the widths of its first two columns. -/
def row (nameWidth signatureWidth : Nat) (word : Word) : String :=
  column nameWidth word.name ++ "  " ++ column signatureWidth word.signature ++ "  --  " ++
    word.description ++ "\n"

/-- A line for each word, in the order of their names. The first two columns are as wide as their
longest text, measured in bytes. -/
def listing (dictionary : Dictionary) : String :=
  let words := dictionary.sorted
  let nameWidth := widest (words.map fun word => word.name.utf8ByteSize)
  let signatureWidth := widest (words.map fun word => word.signature.utf8ByteSize)
  Text.showNat dictionary.size ++ " words defined.\n\n" ++
    String.join (words.map (row nameWidth signatureWidth))

/-! ## Lookup -/

@[simp] theorem find?_empty (name : String) : empty.find? name = none := rfl

@[simp] theorem find?_insert_self (dictionary : Dictionary) (name : String) (word : Word) :
    (dictionary.insert name word).find? name = some word := by
  simp [find?, insert]

theorem find?_insert_of_ne (dictionary : Dictionary) {name other : String} (word : Word)
    (h : name ≠ other) : (dictionary.insert name word).find? other = dictionary.find? other := by
  have hfind : (dictionary.entries.filter (·.1 != name)).find? (·.1 == other) =
      dictionary.entries.find? (·.1 == other) := by
    rw [List.find?_filter]
    congr 1
    funext entry
    by_cases he : entry.1 = other
    · simp [he, Ne.symm h]
    · simp [he]
  simp [find?, insert, h, hfind]

end Dictionary

end Tabletop
