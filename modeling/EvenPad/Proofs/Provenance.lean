import EvenPad.Provenance
import Mathlib.Data.List.Nodup

/-!
What joining notes keeps. A value is read as its parts between commas, and a note that is joined
to it adds the parts of the note (`mem_commaParts_joinNote`). Notes are known by the values of
their keys (`ext_get?`), and they are merged key by key (`get?_merge`).

Main statements: merged notes have the keys and the parts of both (`merge_parts`), and merging the
same notes again changes nothing exactly if none of them holds a comma (`merge_again_iff`).
-/

namespace EvenPad

/-- In a table with one entry for a key, that entry is the one that is found. -/
theorem lookup_eq_some_iff_mem {α β : Type} [BEq α] [LawfulBEq α]
    {l : List (α × β)} {a : α} {b : β} (distinct : (l.map Prod.fst).Nodup) :
    l.lookup a = some b ↔ (a, b) ∈ l := by
  induction l with
  | nil => simp
  | cons entry rest ih =>
    obtain ⟨key, value⟩ := entry
    rw [List.map_cons, List.nodup_cons] at distinct
    rw [List.lookup_cons, List.mem_cons]
    by_cases same : a = key
    · subst same
      have once : (a, b) ∉ rest := fun mem => distinct.1 (List.mem_map.2 ⟨(a, b), mem, rfl⟩)
      simp [once, eq_comm]
    · rw [beq_false_of_ne same, ih distinct.2]
      simp [same]

namespace Provenance

variable {p q : Provenance} {key k value note mine : String} {entries : List (String × String)}
  {text rest part : List Char}

/-! ## Parts of a text -/

theorem commaParts_eq_splitOn (text : List Char) : commaParts text = text.splitOn ',' := by
  induction text with
  | nil => rfl
  | cons c rest ih =>
    rw [commaParts, ih, List.splitOn_cons_eq_if_modifyHead]
    simp only [beq_iff_eq]
    split
    · rfl
    · cases parts : rest.splitOn ',' with
      | nil => exact absurd parts (List.splitOn_ne_nil ',' rest)
      | cons part parts => rfl

theorem commaParts_append (text rest : List Char) :
    commaParts (text ++ ',' :: rest) = commaParts text ++ commaParts rest := by
  simp only [commaParts_eq_splitOn, List.splitOn_append_cons_self]

/-- No part holds a comma. -/
theorem comma_notMem_of_mem_commaParts (mem : part ∈ commaParts text) : ',' ∉ part := by
  induction text generalizing part with
  | nil =>
    cases List.mem_singleton.1 mem
    exact List.not_mem_nil
  | cons c rest ih =>
    rw [commaParts] at mem
    split at mem
    · rcases List.mem_cons.1 mem with rfl | mem
      · exact List.not_mem_nil
      · exact ih mem
    · next other =>
      split at mem
      · next first others parts =>
        rcases List.mem_cons.1 mem with rfl | mem
        · have plain : ',' ∉ first := ih (parts ▸ List.mem_cons_self)
          simp [plain, Ne.symm other]
        · exact ih (parts ▸ List.mem_cons_of_mem first mem)
      · cases List.mem_singleton.1 mem
        simpa using Ne.symm other

/-- A text is a part of itself exactly if it holds no comma. -/
theorem self_mem_commaParts_iff : text ∈ commaParts text ↔ ',' ∉ text := by
  constructor
  · exact comma_notMem_of_mem_commaParts
  · intro plain
    rw [commaParts_eq_splitOn, List.splitOn_eq_singleton plain]
    exact List.mem_singleton_self text

/-! ## Joining a note to a value -/

/-- A joined value has the parts of both. A note that is a part already is its own only part. -/
theorem mem_commaParts_joinNote : part ∈ commaParts (joinNote mine note).toList ↔
    part ∈ commaParts mine.toList ∨ part ∈ commaParts note.toList := by
  rw [joinNote]
  split
  · next held =>
    have held : note.toList ∈ commaParts mine.toList := List.contains_iff_mem.1 held
    have only : commaParts note.toList = [note.toList] := by
      rw [commaParts_eq_splitOn, List.splitOn_eq_singleton (comma_notMem_of_mem_commaParts held)]
    rw [only, List.mem_singleton]
    constructor
    · exact Or.inl
    · intro either
      rcases either with mem | rfl
      · exact mem
      · exact held
  · have joined : (mine ++ "," ++ note).toList = mine.toList ++ ',' :: note.toList := by simp
    rw [joined, commaParts_append, List.mem_append]

theorem prefix_joinNote : mine.toList <+: (joinNote mine note).toList := by
  rw [joinNote]
  split
  · exact List.prefix_refl _
  · simp [String.toList_append, List.append_assoc]

/-- A value stays as it is exactly if the note is one of its parts. -/
theorem joinNote_eq_self_iff :
    joinNote mine note = mine ↔ note.toList ∈ commaParts mine.toList := by
  rw [joinNote]
  split
  · next held => exact iff_of_true rfl (List.contains_iff_mem.1 held)
  · next free =>
    refine iff_of_false ?_ fun held => free (List.contains_iff_mem.2 held)
    intro same
    have lengths := congrArg (fun s => s.toList.length) same
    simp at lengths

/-- What a key has after a note is joined to what it has, if it has anything. -/
def withNote (value : Option String) (note : String) : String :=
  match value with
  | some mine => joinNote mine note
  | none => note

/-- A note that was joined is a part exactly if it holds no comma: its own commas have divided
it. -/
theorem mem_commaParts_withNote {value : Option String} :
    note.toList ∈ commaParts (withNote value note).toList ↔ ',' ∉ note.toList := by
  refine ⟨comma_notMem_of_mem_commaParts, fun plain => ?_⟩
  have own : note.toList ∈ commaParts note.toList := self_mem_commaParts_iff.2 plain
  cases value with
  | none => exact own
  | some mine => exact mem_commaParts_joinNote.2 (.inr own)

/-! ## Values by key -/

theorem nodup_keys (p : Provenance) : (p.entries.map Prod.fst).Nodup := by
  rw [List.nodup_iff_pairwise_ne, List.pairwise_map]
  exact p.increasing.imp String.ne_of_lt

theorem get?_eq_some_iff : p.get? key = some note ↔ (key, note) ∈ p.entries :=
  lookup_eq_some_iff_mem p.nodup_keys

/-- Notes are equal when their keys have the same values. -/
theorem ext_get? (same : ∀ key, p.get? key = q.get? key) : p = q := by
  have members (e : String × String) : e ∈ p.entries ↔ e ∈ q.entries := by
    rw [← get?_eq_some_iff, ← get?_eq_some_iff, same]
  have perm : p.entries.Perm q.entries :=
    (List.perm_ext_iff_of_nodup p.nodup_keys.of_map q.nodup_keys.of_map).2 members
  have entries : p.entries = q.entries :=
    perm.eq_of_pairwise (fun _ _ _ _ below above => absurd above (String.lt_asymm below))
      p.increasing q.increasing
  obtain ⟨_, _⟩ := p
  obtain ⟨_, _⟩ := q
  cases entries
  rfl

theorem lookup_cons_eq_if :
    ((key, value) :: entries).lookup k = if k = key then some value else entries.lookup k := by
  rw [List.lookup_cons]
  by_cases same : k = key
  · rw [same, beq_self_eq_true, if_pos rfl]
  · rw [beq_false_of_ne same, if_neg same]

theorem lookup_insertEntry :
    (insertEntry key value entries).lookup k =
      if k = key then some value else entries.lookup k := by
  induction entries with
  | nil => exact lookup_cons_eq_if
  | cons e rest ih =>
    obtain ⟨name, held⟩ := e
    rw [insertEntry]
    split
    · exact lookup_cons_eq_if
    · split
      · next same =>
        rw [same, lookup_cons_eq_if, lookup_cons_eq_if]
        split <;> rfl
      · next other =>
        rw [lookup_cons_eq_if, lookup_cons_eq_if, ih]
        by_cases here : k = name
        · rw [if_pos here, if_pos here, if_neg (here ▸ Ne.symm other)]
        · rw [if_neg here, if_neg here]

theorem get?_addNote :
    (p.addNote key note).get? k =
      if k = key then some (withNote (p.get? key) note) else p.get? k := by
  rw [addNote, insert, get?, lookup_insertEntry]
  rfl

/-- Entries with keys of their own are joined each to the value of its key. -/
theorem get?_addNotes (distinct : (entries.map Prod.fst).Nodup) :
    (entries.foldl (fun acc (key, note) => acc.addNote key note) p).get? key =
      match entries.lookup key with
      | some note => some (withNote (p.get? key) note)
      | none => p.get? key := by
  induction entries generalizing p with
  | nil => rfl
  | cons e rest ih =>
    obtain ⟨name, held⟩ := e
    rw [List.map_cons, List.nodup_cons] at distinct
    rw [List.foldl_cons, ih distinct.2, lookup_cons_eq_if, get?_addNote]
    by_cases here : key = name
    · subst here
      have once : rest.lookup key = none := by
        rw [List.lookup_eq_none_iff]
        intro e mem
        have other : key ≠ e.1 := by
          intro same
          rw [same] at distinct
          exact distinct.1 (List.mem_map.2 ⟨e, mem, rfl⟩)
        simpa using other
      rw [once, if_pos rfl, if_pos rfl]
    · rw [if_neg here, if_neg here]

/-- Notes are merged key by key. -/
theorem get?_merge : (p.merge q).get? key =
    match q.get? key with
    | some note => some (withNote (p.get? key) note)
    | none => p.get? key :=
  get?_addNotes q.nodup_keys

/-- A node without notes takes over the notes as they are. -/
@[simp] theorem empty_merge : empty.merge q = q := by
  refine ext_get? fun key => ?_
  rw [get?_merge]
  cases q.get? key <;> rfl

/-! ## What merged notes hold -/

/-- The parts of the value of a key. A key without a value has none. -/
def parts (p : Provenance) (key : String) : List (List Char) :=
  match p.get? key with
  | some value => commaParts value.toList
  | none => []

/-- Merged notes have the keys of both and under each key the parts of both, and a value that was
there is where the merged one begins. -/
theorem merge_parts (p q : Provenance) (key : String) :
    (((p.merge q).get? key).isSome ↔ (p.get? key).isSome ∨ (q.get? key).isSome) ∧
    (∀ part, part ∈ (p.merge q).parts key ↔ part ∈ p.parts key ∨ part ∈ q.parts key) ∧
    ∀ mine, p.get? key = some mine →
      ∃ value, (p.merge q).get? key = some value ∧ mine.toList <+: value.toList := by
  simp only [parts, get?_merge]
  cases q.get? key with
  | none => exact ⟨by simp, by simp, fun mine held => ⟨mine, held, List.prefix_refl _⟩⟩
  | some note =>
    cases p.get? key with
    | none => simp [withNote]
    | some mine => simp [withNote, mem_commaParts_joinNote, prefix_joinNote]

/-! ## Merging again -/

/-- No value holds a comma. -/
def Plain (p : Provenance) : Prop := ∀ e ∈ p.entries, ',' ∉ e.2.toList

instance (p : Provenance) : Decidable p.Plain := inferInstanceAs (Decidable (∀ e ∈ p.entries, _))

theorem plain_iff : p.Plain ↔ ∀ key note, p.get? key = some note → ',' ∉ note.toList := by
  simp only [get?_eq_some_iff]
  exact Prod.forall

/-- A merge changes nothing exactly if each note is a part of what its key has. -/
theorem merge_eq_self_iff :
    p.merge q = p ↔ ∀ key note, q.get? key = some note → note.toList ∈ p.parts key := by
  have byKey : p.merge q = p ↔ ∀ key, (p.merge q).get? key = p.get? key :=
    ⟨fun same key => by rw [same], ext_get?⟩
  rw [byKey]
  refine forall_congr' fun key => ?_
  rw [get?_merge, parts]
  cases q.get? key with
  | none => simp
  | some note =>
    cases p.get? key with
    | none => simp
    | some mine => simp [withNote, joinNote_eq_self_iff]

/-- Merging the same notes again, or notes with themselves, changes nothing exactly if no value
that is merged holds a comma: the parts of a value are compared with a note as a whole, which its
own commas keep from being one of them. -/
theorem merge_again_iff (p q : Provenance) :
    ((p.merge q).merge q = p.merge q ↔ q.Plain) ∧ (p.merge p = p ↔ p.Plain) := by
  simp only [merge_eq_self_iff, plain_iff]
  constructor
  · refine forall_congr' fun key => forall_congr' fun note => imp_congr_right fun held => ?_
    rw [parts, get?_merge, held]
    exact mem_commaParts_withNote
  · refine forall_congr' fun key => forall_congr' fun note => imp_congr_right fun held => ?_
    rw [parts, held]
    exact self_mem_commaParts_iff

/-- What a node holds that two others were merged into. -/
def twoLayers : Provenance :=
  (empty.insert "origin" "conv1").merge (empty.insert "origin" "conv2")

/-- Notes that came out of a merge do not merge with themselves, those of one layer do. -/
theorem merge_again_iff_twoLayers : twoLayers.get? "origin" = some "conv1,conv2" ∧
    twoLayers.merge twoLayers ≠ twoLayers ∧
    twoLayers.merge (empty.insert "origin" "conv2") = twoLayers := by
  have joined : twoLayers.get? "origin" = some "conv1,conv2" := by decide
  refine ⟨joined, ?_, (merge_again_iff _ _).1.2 (by decide)⟩
  rw [Ne, (merge_again_iff twoLayers twoLayers).2]
  decide

end Provenance

end EvenPad
