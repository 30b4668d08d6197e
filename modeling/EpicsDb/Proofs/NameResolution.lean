import EpicsDb.Proofs.Grammar.Parsing

/-!
# Which record a name stands for

A name stands for the first record that answers to it.  While declarations are added, records only
come at the end and get further names, which may be names of other records too.  So a name that has
found a record keeps finding one, and if it is another one then that record comes before.

* `tryAttach_cases` says all that attaching a name can do: nothing, or one name more for one record.
* `Database.Extends` says what may become of a database, and `extends_declare` that a declaration
  does no more.  `extends_foldl_declare` is the induction along the declarations.
* `Extends.resolve?_le` takes from it where a name can move, and `resolve?_eq_length_iff` says of a
  given record when a name stands for it.
-/

namespace EpicsDb

open Grammar

variable {db later last : Database} {r : Record} {before behind : List Record} {i : Nat}
  {name : String}

/-! ## Attaching a name -/

theorem Record.answersTo_iff : r.answersTo name = true ↔ r.name = name ∨ name ∈ r.aliases := by
  simp [Record.answersTo]

/-- A record answers to the names that it has been given. -/
theorem Record.answersTo_append_iff {names : List String} :
    { r with aliases := r.aliases ++ names }.answersTo name = true ↔
      r.answersTo name = true ∨ name ∈ names := by
  simp [Record.answersTo_iff, or_assoc]

/-- `tryAttach` tells whether it changes the database. -/
theorem tryAttach_cases (db : Database) (parent newName : String) :
    db.tryAttach parent newName = (false, db) ∨
    ∃ before r behind, db.records = before ++ r :: behind ∧
      (∀ q ∈ before, q.answersTo parent = false) ∧ r.answersTo parent = true ∧
      db.tryAttach parent newName = (true, { db with
        records := before ++ { r with aliases := r.aliases ++ [newName] } :: behind }) := by
  rcases addAlias_cases db.records parent newName with
    ⟨hnone, hadd⟩ | ⟨before, r, behind, hsplit, hbefore, hr, hadd⟩
  · have hknows : db.knows parent = false := by simpa [Database.knows] using hnone
    left
    rw [Database.tryAttach, hknows, Database.attach, hadd]
  · have hmem : r ∈ db.records := by simp [hsplit]
    have hknows : db.knows parent = true := List.any_eq_true.mpr ⟨r, hmem, hr⟩
    right
    refine ⟨before, r, behind, hsplit, hbefore, hr, ?_⟩
    rw [Database.tryAttach, hknows, Database.attach, hadd]

/-! ## Databases that have grown -/

/-- The other database has the records of the first one where they were, each as it was or with
further names behind those that it had.  It may have more records. -/
structure Database.Extends (db later : Database) : Prop where
  source : later.source = db.source
  records : ∀ (i : Nat) (r : Record), db.records[i]? = some r →
    ∃ names, later.records[i]? = some { r with aliases := r.aliases ++ names }

theorem extends_refl (db : Database) : db.Extends db := by
  refine ⟨rfl, ?_⟩
  intro i r hr
  exact ⟨[], by rw [List.append_nil, hr]⟩

theorem Database.Extends.trans (h : db.Extends later) (h' : later.Extends last) :
    db.Extends last := by
  refine ⟨h'.source.trans h.source, ?_⟩
  intro i r hr
  obtain ⟨names, hlater⟩ := h.records i r hr
  obtain ⟨further, hlast⟩ := h'.records i _ hlater
  refine ⟨names ++ further, ?_⟩
  rw [hlast, List.append_assoc]

theorem extends_push (db : Database) (r : Record) : db.Extends (db.push r) := by
  refine ⟨rfl, ?_⟩
  intro i q hq
  obtain ⟨hi, -⟩ := List.getElem?_eq_some_iff.mp hq
  refine ⟨[], ?_⟩
  rw [List.append_nil, ← hq]
  exact List.getElem?_append_left hi

theorem extends_attach (db : Database) (parent newName : String) :
    db.Extends (db.attach parent newName) := by
  rcases addAlias_cases db.records parent newName with
    ⟨-, hadd⟩ | ⟨before, r, behind, hsplit, -, -, hadd⟩
  · rw [Database.attach, hadd]
    exact extends_refl db
  · rw [Database.attach, hadd]
    refine ⟨rfl, ?_⟩
    intro i q hq
    rw [hsplit, List.getElem?_append] at hq
    rw [List.getElem?_append]
    split_ifs at hq ⊢ with hi
    · exact ⟨[], by rw [List.append_nil, hq]⟩
    · cases hk : i - before.length with
      | zero =>
        rw [hk, List.getElem?_cons_zero, Option.some.injEq] at hq
        subst hq
        exact ⟨[newName], rfl⟩
      | succ k =>
        rw [hk, List.getElem?_cons_succ] at hq
        exact ⟨[], by rw [List.getElem?_cons_succ, List.append_nil, hq]⟩

theorem extends_declare (db : Database) (d : Declaration) : db.Extends (declare db d) := by
  cases d with
  | record r => exact extends_push db r
  | aliasOf parent newName => exact extends_attach db parent newName
  | filler f => exact extends_refl db

theorem extends_foldl_declare (ds : List Declaration) (db : Database) :
    db.Extends (ds.foldl declare db) := by
  induction ds generalizing db with
  | nil => exact extends_refl db
  | cons d ds ih => exact (extends_declare db d).trans (ih (declare db d))

/-! ## Where a name stands -/

/-- The index of the record that a name stands for. -/
def Database.resolve? (db : Database) (name : String) : Option Nat :=
  db.records.findIdx? (·.answersTo name)

/-- A name that has found a record finds the same one later, or one before it. -/
theorem Database.Extends.resolve?_le (h : db.Extends later) (hi : db.resolve? name = some i) :
    ∃ j ≤ i, later.resolve? name = some j := by
  obtain ⟨hlt, hname, -⟩ := List.findIdx?_eq_some_iff_getElem.mp hi
  obtain ⟨names, hgrown⟩ := h.records i _ (List.getElem?_eq_getElem hlt)
  obtain ⟨hlt, hgrown⟩ := List.getElem?_eq_some_iff.mp hgrown
  have hfound : later.records[i].answersTo name = true := by
    rw [hgrown, Record.answersTo_append_iff]
    exact .inl hname
  refine ⟨later.records.findIdx (·.answersTo name), ?_, ?_⟩
  · by_contra hbehind
    have hnot := List.not_of_lt_findIdx (Nat.lt_of_not_le hbehind)
    rw [hfound] at hnot
    cases hnot
  · exact List.findIdx?_eq_some_of_exists ⟨_, List.getElem_mem hlt, hfound⟩

/-- A name stands for a record if the record answers to it and none before does. -/
theorem resolve?_eq_length_iff (h : db.records = before ++ r :: behind) :
    db.resolve? name = some before.length ↔
      r.answersTo name = true ∧ ∀ q ∈ before, q.answersTo name = false := by
  rw [Database.resolve?, h, List.findIdx?_append, ← List.findIdx?_eq_none_iff]
  cases hfind : before.findIdx? (·.answersTo name) with
  | none =>
    rw [Option.none_or, List.findIdx?_cons]
    cases hr : r.answersTo name with
    | true => simp
    | false =>
      refine iff_of_false ?_ (by simp)
      intro hbehind
      obtain ⟨k, hk, hlength⟩ := Option.map_eq_some_iff.mp hbehind
      obtain ⟨l, -, rfl⟩ := Option.map_eq_some_iff.mp hk
      omega
  | some k =>
    obtain ⟨hk, -⟩ := List.findIdx?_eq_some_iff_getElem.mp hfind
    simp only [Option.some_or, Option.some.injEq, reduceCtorEq, and_false, iff_false]
    omega

theorem eq_self_of_tryAttach {parent newName : String}
    (h : (db.tryAttach parent newName).1 = false) : (db.tryAttach parent newName).2 = db := by
  rcases tryAttach_cases db parent newName with hattach | ⟨_, _, _, _, _, _, hattach⟩
  · rw [hattach]
  · rw [hattach] at h
    cases h

/-- A further name goes to the record that its parent stands for. -/
theorem exists_of_tryAttach {parent newName : String}
    (h : (db.tryAttach parent newName).1 = true) :
    ∃ before r behind, db.records = before ++ r :: behind ∧
      db.resolve? parent = some before.length ∧
      (db.tryAttach parent newName).2 = { db with
        records := before ++ { r with aliases := r.aliases ++ [newName] } :: behind } ∧
      ((db.tryAttach parent newName).2.resolve? newName = some before.length ↔
        ∀ q ∈ before, q.answersTo newName = false) := by
  rcases tryAttach_cases db parent newName with
    hattach | ⟨before, r, behind, hsplit, hbefore, hr, hattach⟩
  · rw [hattach] at h
    cases h
  · rw [hattach]
    refine ⟨before, r, behind, hsplit, (resolve?_eq_length_iff hsplit).mpr ⟨hr, hbefore⟩, rfl, ?_⟩
    have hgiven : { r with aliases := r.aliases ++ [newName] }.answersTo newName = true :=
      Record.answersTo_append_iff.mpr (.inr (List.mem_singleton_self newName))
    rw [resolve?_eq_length_iff rfl]
    exact and_iff_right hgiven

/-! ## Declarations in a row -/

/-- Whatever is declared, records stay where they are and as they are, apart from further names
behind those that they have, and names only move to records before.  A further name goes to the
record that its parent stands for, and nowhere if there is none; it stands for that record if no
record before answers to it. -/
theorem declarations_keep_records (db : Database) (earlier later : List Declaration) :
    let now := earlier.foldl declare db
    let after := (earlier ++ later).foldl declare db
    now.Extends after ∧
    (∀ name i, now.resolve? name = some i → ∃ j ≤ i, after.resolve? name = some j) ∧
    ∀ parent newName,
      let attached := (now.tryAttach parent newName).1
      let next := (now.tryAttach parent newName).2
      next = (earlier ++ [Declaration.aliasOf parent newName]).foldl declare db ∧
      (attached = true ↔ ∃ r ∈ now.records, r.name = parent ∨ parent ∈ r.aliases) ∧
      (attached = false → next = now) ∧
      (attached = true → ∃ before r behind, now.records = before ++ r :: behind ∧
        now.resolve? parent = some before.length ∧
        next = { now with
          records := before ++ { r with aliases := r.aliases ++ [newName] } :: behind } ∧
        (next.resolve? newName = some before.length ↔
          ∀ q ∈ before, q.answersTo newName = false)) := by
  intro now after
  have hafter : after = later.foldl declare now := List.foldl_append
  have hextends : now.Extends after := hafter ▸ extends_foldl_declare later now
  refine ⟨hextends, fun name i hi => hextends.resolve?_le hi, ?_⟩
  intro parent newName attached next
  have hnext : next = (earlier ++ [Declaration.aliasOf parent newName]).foldl declare db := by
    rw [List.foldl_append]
    rfl
  have hattached : attached = true ↔ ∃ r ∈ now.records, r.name = parent ∨ parent ∈ r.aliases := by
    simp only [← Record.answersTo_iff]
    exact List.any_eq_true
  exact ⟨hnext, hattached, eq_self_of_tryAttach, exists_of_tryAttach⟩

/-- The theorem at an alias that is the name of a later record.  The name moves to the record before,
and so does an alias of that name. -/
theorem declarations_take_name_over :
    let earlier : List Declaration := [.record (.bare "ai" "A"), .record (.bare "ao" "B")]
    let later : List Declaration := [.aliasOf "A" "B", .aliasOf "B" "C"]
    let now := earlier.foldl declare .empty
    let after := (earlier ++ later).foldl declare .empty
    now.resolve? "B" = some 1 ∧ (now.tryAttach "A" "B").1 = true ∧
      (∃ j ≤ 1, after.resolve? "B" = some j) ∧ after.resolve? "C" = some 0 ∧
      ∃ before r behind, now.records = before ++ r :: behind ∧
        now.resolve? "A" = some before.length ∧
        ((now.tryAttach "A" "B").2.resolve? "B" = some before.length ↔
          ∀ q ∈ before, q.answersTo "B" = false) := by
  intro earlier later now after
  have hresolve : now.resolve? "B" = some 1 := by decide
  have hattached : (now.tryAttach "A" "B").1 = true := by decide
  obtain ⟨-, hmoves, hattach⟩ := declarations_keep_records .empty earlier later
  obtain ⟨-, -, -, hfound⟩ := hattach "A" "B"
  obtain ⟨before, r, behind, hsplit, hparent, -, hstands⟩ := hfound hattached
  exact ⟨hresolve, hattached, hmoves "B" 1 hresolve, by decide,
    before, r, behind, hsplit, hparent, hstands⟩

end EpicsDb
