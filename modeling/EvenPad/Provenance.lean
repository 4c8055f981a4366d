/-!
Where a node comes from: notes by key, which outlive the node. What replaces a node takes over its
notes; notes under one key that differ are joined by commas.
-/

namespace EvenPad

/-- Notes by key. The keys increase in the order of their code points, which is that of their
UTF-8 bytes, so two sets of notes are equal when they hold the same notes. -/
structure Provenance where
  entries : List (String × String)
  increasing : entries.Pairwise fun a b => a.1 < b.1
  deriving DecidableEq

namespace Provenance

def empty : Provenance := ⟨[], .nil⟩

instance : Inhabited Provenance := ⟨empty⟩

def isEmpty (p : Provenance) : Bool := p.entries.isEmpty

def get? (p : Provenance) (key : String) : Option String := p.entries.lookup key

/-! ## Setting the note of a key -/

/-- Entries in key order with one more, which replaces an entry of the same key. -/
def insertEntry (key value : String) : List (String × String) → List (String × String)
  | [] => [(key, value)]
  | (k, v) :: rest =>
    if key < k then (key, value) :: (k, v) :: rest
    else if key = k then (key, value) :: rest
    else (k, v) :: insertEntry key value rest

/-- Insertion brings in no key but its own. -/
theorem key_of_mem_insertEntry {key value : String} {e : String × String}
    {entries : List (String × String)} (h : e ∈ insertEntry key value entries) :
    e.1 = key ∨ e ∈ entries := by
  induction entries with
  | nil => simp_all [insertEntry]
  | cons x rest ih =>
    obtain ⟨k, v⟩ := x
    simp only [insertEntry] at h
    split at h
    · grind
    · split at h <;> grind

theorem insertEntry_increasing (key value : String) {entries : List (String × String)}
    (h : entries.Pairwise fun a b => a.1 < b.1) :
    (insertEntry key value entries).Pairwise fun a b => a.1 < b.1 := by
  induction entries with
  | nil => simp [insertEntry]
  | cons x rest ih =>
    obtain ⟨k, v⟩ := x
    rw [List.pairwise_cons] at h
    simp only [insertEntry]
    split
    · next below =>
      refine List.pairwise_cons.2 ⟨fun e he => ?_, List.pairwise_cons.2 h⟩
      rcases List.mem_cons.1 he with rfl | he
      · exact below
      · exact String.lt_trans below (h.1 e he)
    · next notBelow =>
      split
      · next same => subst same; exact List.pairwise_cons.2 h
      · next other =>
        refine List.pairwise_cons.2 ⟨fun e he => ?_, ih h.2⟩
        rcases key_of_mem_insertEntry he with same | he
        · grind
        · exact h.1 e he

/-- The notes with that of one key set. -/
def insert (p : Provenance) (key value : String) : Provenance :=
  ⟨insertEntry key value p.entries, insertEntry_increasing key value p.increasing⟩

/-! ## Joining notes -/

/-- The parts of a text between commas. There is always one more than there are commas. -/
def commaParts : List Char → List (List Char)
  | [] => [[]]
  | c :: rest =>
    if c = ',' then [] :: commaParts rest
    else
      match commaParts rest with
      | part :: parts => (c :: part) :: parts
      | [] => [[c]]

/-- The value of a key after a note is joined to it: the same if the note is one of its parts. -/
def joinNote (mine note : String) : String :=
  if (commaParts mine.toList).contains note.toList then mine else mine ++ "," ++ note

/-- The notes with one more joined to those of its key. -/
def addNote (p : Provenance) (key note : String) : Provenance :=
  p.insert key (match p.get? key with
    | some mine => joinNote mine note
    | none => note)

/-- The notes of both, those of the first in front. -/
def merge (p other : Provenance) : Provenance :=
  other.entries.foldl (fun acc (key, note) => acc.addNote key note) p

end Provenance

end EvenPad
