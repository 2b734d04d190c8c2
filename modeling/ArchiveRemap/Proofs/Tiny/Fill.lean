import ArchiveRemap.Proofs.Tiny.Shape

/-!
What merging does to rows. A row that takes the names of another keeps its own, and an empty
place takes the first name that is offered for it. A list of members takes those of another
list one by one, each into the first of its descriptor and first name or behind all others. What
was taken once is not taken again.
-/

namespace ArchiveRemap.Tiny

/-! Names of rows. -/

namespace Row

/-- The name that a row has in a column. -/
def nameAt? (row : Row) (column : Nat) : Option String := (row[column]?).bind id

/-- The names of a row under a label, where each of its places has a label. -/
def under {α : Type} [DecidableEq α] (row : Row) (labels : List α) (label : α) : List String :=
  (row.zip labels).filterMap fun (name, own) => if own = label then name else none

/-- A row that has all names of another where that has them. -/
def Extends (row old : Row) : Prop :=
  ∀ column name, old.nameAt? column = some name → row.nameAt? column = some name

/-- A row with a name in every place for which another has one. -/
def Absorbs (row incoming : Row) (columns : List Nat) : Prop :=
  ∀ column, incoming.under columns column ≠ [] → row.nameAt? column ≠ none

variable {row incoming : Row} {columns : List Nat} {column width : Nat}

theorem under_cons {α : Type} [DecidableEq α] (name : Option String) (rest : Row) (own : α)
    (others : List α) (label : α) :
    under (name :: rest) (own :: others) label =
      (if own = label then name else none).toList ++ rest.under others label := by
  rw [under, List.zip_cons_cons, List.filterMap_cons]
  by_cases same : own = label
  · cases name <;> simp [same, under]
  · simp [same, under]

/-- Other labels that are alike where they are asked for. -/
theorem under_map {α β : Type} [DecidableEq α] [DecidableEq β] (row : Row) {labels : List α}
    {relabel : α → β} {label : α} (apart : ∀ own ∈ labels, relabel own = relabel label →
      own = label) : row.under (labels.map relabel) (relabel label) = row.under labels label := by
  induction labels generalizing row with
  | nil => simp [under]
  | cons own rest ih =>
      obtain ⟨first, later⟩ := List.forall_mem_cons.mp apart
      cases row with
      | nil => rfl
      | cons name others =>
          rw [List.map_cons, under_cons, under_cons, ih others later]
          by_cases same : own = label
          · simp [same]
          · simp [same, mt first same]

theorem mem_of_under_ne_nil {α : Type} [DecidableEq α] {labels : List α} {label : α}
    (there : row.under labels label ≠ []) : label ∈ labels := by
  obtain ⟨name, listed⟩ := List.exists_mem_of_ne_nil _ there
  obtain ⟨⟨shown, own⟩, zipped, chosen⟩ := List.mem_filterMap.mp listed
  by_cases same : own = label
  · exact same ▸ (List.of_mem_zip zipped).2
  · simp [same] at chosen

/-! Taking names. -/

theorem nameAt?_settle (row : Row) (name : Option String) (place column : Nat) :
    (row.settle name place).nameAt? column =
      (row.nameAt? column).or (if place = column ∧ column < row.length then name else none) := by
  unfold settle nameAt?
  by_cases here : place = column
  · subst here
    by_cases inside : place < row.length
    · cases own : row[place] with
      | none => simp [inside, own]
      | some shown => simp [inside, own]
    · simp [inside]
  · split <;> simp [List.getElem?_set_ne here, here]

/-- An own name stays; an empty place takes the first name for it. -/
theorem nameAt?_fill (row incoming : Row) (columns : List Nat) (column : Nat) :
    (row.fill incoming columns).nameAt? column = (row.nameAt? column).or
      (if column < row.length then (incoming.under columns column).head? else none) := by
  induction incoming generalizing row columns with
  | nil => simp [fill, under]
  | cons name rest ih =>
      cases columns with
      | nil => simp [fill, under]
      | cons place others =>
          rw [fill_cons, ih, nameAt?_settle, under_cons, length_settle, Option.or_assoc]
          by_cases inside : column < row.length <;> by_cases here : place = column <;>
            cases name <;> simp [inside, here]

theorem nameAt?_widen (row : Row) (width column : Nat) :
    (row.widen width).nameAt? column = row.nameAt? column := by
  unfold nameAt? widen
  by_cases inside : column < row.length
  · rw [List.getElem?_append_left inside]
  · rw [List.getElem?_append_right (by omega), List.getElem?_replicate,
      List.getElem?_eq_none (by omega)]
    split <;> rfl

theorem nameAt?_emptyRow (width column : Nat) : (emptyRow width).nameAt? column = none := by
  unfold nameAt? emptyRow
  rw [List.getElem?_replicate]
  split <;> rfl

theorem Extends.refl (row : Row) : row.Extends row := fun _ _ => id

theorem Extends.trans {middle old : Row} (after : row.Extends middle)
    (before : middle.Extends old) : row.Extends old := fun column name found =>
  after column name (before column name found)

theorem extends_fill (row incoming : Row) (columns : List Nat) :
    (row.fill incoming columns).Extends row := fun column name found => by
  rw [nameAt?_fill, found, Option.some_or]

theorem extends_widen (row : Row) (width : Nat) : (row.widen width).Extends row :=
  fun column name found => by rw [nameAt?_widen, found]

/-- Names that are offered where there are some already change nothing. -/
theorem fill_of_absorbs (absorbs : row.Absorbs incoming columns) :
    row.fill incoming columns = row := by
  induction incoming generalizing columns with
  | nil => rfl
  | cons name rest ih =>
      cases columns with
      | nil => rfl
      | cons place others =>
          have later : row.Absorbs rest others := fun column offered => by
            refine absorbs column fun none => offered ?_
            rw [under_cons] at none
            exact (List.append_eq_nil_iff.mp none).2
          have settled : row.settle name place = row := by
            unfold settle
            split
            · rename_i missing
              -- The place is empty, so nothing was offered for it.
              have nameless : name = none := by
                cases name with
                | none => rfl
                | some shown =>
                    refine absurd (Option.isNone_iff_eq_none.mp missing) (absorbs place ?_)
                    simp [under_cons]
              rw [nameless]
              apply List.ext_getElem?
              intro index
              rw [List.getElem?_set]
              split
              · rename_i here
                subst here
                by_cases inside : place < row.length <;> simp_all
              · rfl
            · rfl
          rw [fill_cons, settled, ih later]

end Row

/-! Members. -/

namespace MemberRow

/-- Whether a member has a descriptor and a name in the first namespace. -/
def fits (desc first : String) (member : MemberRow) : Bool :=
  member.desc = desc && member.names.firstName = first

/-- The names of the first member that has them. -/
def firstRow? (desc first : String) (members : List MemberRow) : Option Row :=
  (members.find? (fits desc first)).map (·.names)

/-- A name of the first member that has them. -/
def nameAt? (desc first : String) (members : List MemberRow) (column : Nat) : Option String :=
  (firstRow? desc first members).bind (·.nameAt? column)

/-- Every member keeps its place, its descriptor and its names. -/
def Keeps (members before : List MemberRow) : Prop :=
  ∀ (place : Nat) (old : MemberRow), before[place]? = some old →
    ∃ new, members[place]? = some new ∧ new.desc = old.desc ∧ new.names.Extends old.names

theorem firstRow?_cons (desc first : String) (member : MemberRow) (rest : List MemberRow) :
    firstRow? desc first (member :: rest) =
      if member.fits desc first then some member.names else firstRow? desc first rest := by
  unfold firstRow?
  rw [List.find?_cons]
  cases member.fits desc first <;> rfl

theorem Keeps.refl (members : List MemberRow) : Keeps members members := fun _ old there =>
  ⟨old, there, rfl, .refl _⟩

theorem Keeps.trans {after middle before : List MemberRow} (second : Keeps after middle)
    (first : Keeps middle before) : Keeps after before := by
  intro place old there
  obtain ⟨between, here, desc, names⟩ := first place old there
  obtain ⟨new, last, same, more⟩ := second place between here
  exact ⟨new, last, same.trans desc, more.trans names⟩

theorem keeps_cons {new old : MemberRow} {after before : List MemberRow}
    (desc : new.desc = old.desc) (names : new.names.Extends old.names)
    (rest : Keeps after before) : Keeps (new :: after) (old :: before) := by
  intro place member there
  cases place with
  | zero =>
      cases there
      exact ⟨new, rfl, desc, names⟩
  | succ place => exact rest place member there

end MemberRow

section Merge

open MemberRow

variable {width more : Nat} {others : List Nat} {desc first : String}

theorem mergeMember_cons (columns : List Nat) (width : Nat) (member old : MemberRow)
    (rest : List MemberRow) : mergeMember columns width member (old :: rest) =
      if old.fits member.desc member.names.firstName then
        { old with names := old.names.fill member.names columns } :: rest
      else old :: mergeMember columns width member rest := rfl

/-- A member that comes goes into the first one like it, or behind all of them. -/
theorem firstRow?_mergeMember {member : MemberRow} {known : List MemberRow}
    (incoming : member.names.Shaped more) (wide : 0 < width)
    (shaped : ∀ old ∈ known, old.names.Shaped width) :
    firstRow? desc first (mergeMember (0 :: others) width member known) =
      if member.fits desc first then
        some (((firstRow? desc first known).getD (emptyRow width)).fill member.names (0 :: others))
      else firstRow? desc first known := by
  induction known with
  | nil =>
      have named := Row.firstName_eq (Row.head?_fill_empty incoming wide others)
      rw [mergeMember, firstRow?_cons]
      simp [fits, named, firstRow?]
  | cons old rest ih =>
      obtain ⟨head, later⟩ := List.forall_mem_cons.mp shaped
      have named : (old.names.fill member.names (0 :: others)).firstName = old.names.firstName :=
        Row.firstName_eq (Row.head?_fill head.named)
      rw [mergeMember_cons]
      split
      · rename_i alike
        simp only [fits, Bool.and_eq_true, decide_eq_true_eq] at alike
        simp only [firstRow?_cons, fits, named, alike]
        split <;> simp
      · rename_i other
        rw [firstRow?_cons, firstRow?_cons, ih later]
        by_cases fitting : old.fits desc first = true
        · have apart : ¬member.fits desc first = true := by
            simp only [fits, Bool.and_eq_true, decide_eq_true_eq] at fitting other ⊢
            rintro ⟨sameDesc, sameName⟩
            exact other ⟨fitting.1.trans sameDesc.symm, fitting.2.trans sameName.symm⟩
          rw [if_pos fitting, if_pos fitting, if_neg apart]
        · rw [if_neg fitting, if_neg fitting]

theorem nameAt?_mergeMember {member : MemberRow} {known : List MemberRow} {column : Nat}
    (incoming : member.names.Shaped more) (inside : column < width)
    (shaped : ∀ old ∈ known, old.names.Shaped width) :
    nameAt? desc first (mergeMember (0 :: others) width member known) column =
      (nameAt? desc first known column).or
        (if member.fits desc first then (member.names.under (0 :: others) column).head?
        else none) := by
  have wide : 0 < width := by omega
  unfold MemberRow.nameAt?
  rw [firstRow?_mergeMember incoming wide shaped]
  split
  · cases own : firstRow? desc first known with
    | none =>
        rw [Option.bind_some, Option.getD_none, Row.nameAt?_fill, Row.nameAt?_emptyRow, emptyRow,
          List.length_replicate, if_pos inside]
        rfl
    | some row =>
        have length : row.length = width := by
          obtain ⟨old, listed, rfl⟩ := Option.map_eq_some_iff.mp own
          exact (shaped old (List.mem_of_find?_eq_some listed)).width
        rw [Option.bind_some, Option.getD_some, Row.nameAt?_fill, length, if_pos inside]
        rfl
  · rw [Option.or_none]

/-- In a list that took the members of another, a name is an own one, or the first that the
members of the other offer for it. -/
theorem nameAt?_mergeMemberList {known incoming : List MemberRow} {column : Nat}
    (inside : column < width) (shaped : ∀ old ∈ known, old.names.Shaped width)
    (arriving : ∀ member ∈ incoming, member.names.Shaped more) :
    nameAt? desc first (mergeMemberList (0 :: others) width known incoming) column =
      (nameAt? desc first known column).or
        ((incoming.filter (fits desc first)).flatMap
          fun member => member.names.under (0 :: others) column).head? := by
  -- One member after the other; what the first ones offer comes before what later ones do.
  induction incoming generalizing known with
  | nil => simp [mergeMemberList]
  | cons member rest ih =>
      obtain ⟨head, later⟩ := List.forall_mem_cons.mp arriving
      have step : mergeMemberList (0 :: others) width known (member :: rest) =
          mergeMemberList (0 :: others) width (mergeMember (0 :: others) width member known) rest :=
        rfl
      rw [step, ih (shaped_mergeMember head (by omega) shaped) later,
        nameAt?_mergeMember head inside shaped, Option.or_assoc]
      by_cases fitting : member.fits desc first = true
      · rw [if_pos fitting, List.filter_cons_of_pos fitting, List.flatMap_cons, List.head?_append]
      · rw [if_neg fitting, List.filter_cons_of_neg fitting, Option.none_or]

theorem keeps_mergeMember (columns : List Nat) (width : Nat) (member : MemberRow)
    (known : List MemberRow) : Keeps (mergeMember columns width member known) known := by
  induction known with
  | nil => exact fun _ _ => nofun
  | cons old rest ih =>
      rw [mergeMember_cons]
      split
      · exact keeps_cons rfl (Row.extends_fill _ _ _) (.refl rest)
      · exact keeps_cons rfl (.refl _) ih

theorem keeps_mergeMemberList (columns : List Nat) (width : Nat)
    (known incoming : List MemberRow) :
    Keeps (mergeMemberList columns width known incoming) known := by
  induction incoming generalizing known with
  | nil => exact .refl known
  | cons member rest ih => exact (ih _).trans (keeps_mergeMember columns width member known)

/-- A member that was taken before changes nothing. -/
theorem mergeMember_of_absorbs {columns : List Nat} {member : MemberRow}
    {known : List MemberRow} {row : Row}
    (there : firstRow? member.desc member.names.firstName known = some row)
    (absorbs : row.Absorbs member.names columns) :
    mergeMember columns width member known = known := by
  induction known with
  | nil => cases there
  | cons old rest ih =>
      rw [firstRow?_cons] at there
      rw [mergeMember_cons]
      by_cases alike : old.fits member.desc member.names.firstName = true
      · rw [if_pos alike] at there
        cases there
        rw [if_pos alike, Row.fill_of_absorbs absorbs]
      · rw [if_neg alike] at there
        rw [if_neg alike, ih there]

theorem mergeMemberList_of_absorbs {columns : List Nat} {known incoming : List MemberRow}
    (taken : ∀ member ∈ incoming, ∃ row,
      firstRow? member.desc member.names.firstName known = some row ∧
        row.Absorbs member.names columns) :
    mergeMemberList columns width known incoming = known := by
  induction incoming with
  | nil => rfl
  | cons member rest ih =>
      obtain ⟨⟨row, there, absorbs⟩, later⟩ := List.forall_mem_cons.mp taken
      have step : mergeMemberList columns width known (member :: rest) =
          mergeMemberList columns width (mergeMember columns width member known) rest := rfl
      rw [step, mergeMember_of_absorbs there absorbs, ih later]

/-- After a merge every member that came was taken. -/
theorem absorbs_mergeMemberList {known incoming : List MemberRow}
    (placed : ∀ column ∈ 0 :: others, column < width)
    (shaped : ∀ old ∈ known, old.names.Shaped width)
    (arriving : ∀ member ∈ incoming, member.names.Shaped more) :
    ∀ member ∈ incoming, ∃ row,
      firstRow? member.desc member.names.firstName
          (mergeMemberList (0 :: others) width known incoming) = some row ∧
        row.Absorbs member.names (0 :: others) := by
  intro member listed
  have taken : ∀ column, member.names.under (0 :: others) column ≠ [] →
      nameAt? member.desc member.names.firstName
        (mergeMemberList (0 :: others) width known incoming) column ≠ none := by
    intro column offered
    rw [nameAt?_mergeMemberList (placed column (Row.mem_of_under_ne_nil offered)) shaped arriving,
      Ne, Option.or_eq_none_iff, List.head?_eq_none_iff, List.flatMap_eq_nil_iff]
    rintro ⟨-, none⟩
    exact offered (none member (List.mem_filter.mpr ⟨listed, by simp [fits]⟩))
  have named : member.names.under (0 :: others) 0 ≠ [] := by
    obtain ⟨rest, form⟩ := List.head?_eq_some_iff.mp (arriving member listed).named
    rw [form, Row.under_cons]
    simp
  cases there : firstRow? member.desc member.names.firstName
      (mergeMemberList (0 :: others) width known incoming) with
  | none => exact absurd (by rw [MemberRow.nameAt?, there]; rfl) (taken 0 named)
  | some row =>
      refine ⟨row, rfl, fun column offered => ?_⟩
      have found := taken column offered
      rwa [MemberRow.nameAt?, there, Option.bind_some] at found

end Merge

end ArchiveRemap.Tiny
