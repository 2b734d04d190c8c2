import ArchiveRemap.Proofs.Tiny.Step
import ArchiveRemap.Tiny.Merge

/-!
The shape of mapping data. Whatever was read or merged has rows as wide as its header, every
symbol has a name in the first namespace, and a class lies under that name and only once.
-/

namespace ArchiveRemap.Tiny

/-! Rows. -/

/-- As wide as the header, and with a name in the first namespace. -/
structure Row.Shaped (width : Nat) (row : Row) : Prop where
  width : row.length = width
  named : row.head? = some (some row.firstName)
  there : row.firstName ≠ ""

namespace Row

variable {width more : Nat} {row incoming : Row} {columns : List Nat}

theorem firstName_eq {name : String} (named : row.head? = some (some name)) :
    row.firstName = name := by
  rw [firstName, named]
  rfl

/-- Put a name into an empty place. -/
def settle (row : Row) (name : Option String) (column : Nat) : Row :=
  if ((row[column]?).bind id).isNone then row.set column name else row

theorem fill_cons (row : Row) (name : Option String) (rest : Row) (column : Nat)
    (others : List Nat) :
    row.fill (name :: rest) (column :: others) = (row.settle name column).fill rest others := rfl

theorem length_settle (row : Row) (name : Option String) (column : Nat) :
    (row.settle name column).length = row.length := by
  unfold settle
  split
  · exact List.length_set
  · rfl

theorem length_fill (row incoming : Row) (columns : List Nat) :
    (row.fill incoming columns).length = row.length := by
  induction incoming generalizing row columns with
  | nil => rfl
  | cons name rest ih =>
      cases columns with
      | nil => rfl
      | cons column others => rw [fill_cons, ih, length_settle]

/-- A name that is there is kept. -/
theorem head?_fill {name : String} (named : row.head? = some (some name)) :
    (row.fill incoming columns).head? = some (some name) := by
  induction incoming generalizing row columns with
  | nil => exact named
  | cons offered rest ih =>
      cases columns with
      | nil => exact named
      | cons column others =>
          rw [fill_cons]
          apply ih
          obtain ⟨tail, rfl⟩ := List.head?_eq_some_iff.mp named
          rw [settle]
          cases column with
          | zero => rfl
          | succ column => split <;> rfl

theorem head?_fill_empty (known : incoming.Shaped more) (wide : 0 < width) (others : List Nat) :
    ((emptyRow width).fill incoming (0 :: others)).head? = some (some incoming.firstName) := by
  obtain ⟨rest, split⟩ := List.head?_eq_some_iff.mp known.named
  generalize incoming.firstName = name at split ⊢
  rw [split, fill_cons]
  apply head?_fill
  cases width with
  | zero => cases wide
  | succ width => rfl

theorem Shaped.of_head {name : String} (wide : row.length = width)
    (named : row.head? = some (some name)) (there : name ≠ "") : row.Shaped width := by
  have same := firstName_eq named
  exact ⟨wide, by rw [same, named], by rwa [same]⟩

theorem head?_widen (shaped : row.Shaped width) (more : Nat) :
    (row.widen more).head? = some (some row.firstName) := by
  rw [widen, List.head?_append, shaped.named]
  rfl

theorem Shaped.widen (shaped : row.Shaped width) (wider : width ≤ more) :
    (row.widen more).Shaped more := by
  refine .of_head ?_ (head?_widen shaped more) shaped.there
  rw [Row.widen, List.length_append, List.length_replicate, shaped.width]
  omega

theorem Shaped.fill (shaped : row.Shaped width) (incoming : Row) (columns : List Nat) :
    (row.fill incoming columns).Shaped width :=
  .of_head ((length_fill row incoming columns).trans shaped.width) (head?_fill shaped.named)
    shaped.there

theorem Shaped.fill_empty (known : incoming.Shaped more) (wide : 0 < width)
    (others : List Nat) : ((emptyRow width).fill incoming (0 :: others)).Shaped width := by
  refine .of_head ?_ (head?_fill_empty known wide others) known.there
  rw [length_fill, emptyRow, List.length_replicate]

end Row

/-! Symbols and trees. -/

structure ClassRow.Shaped (width : Nat) (entry : ClassRow) : Prop where
  names : entry.names.Shaped width
  members : ∀ kind, ∀ member ∈ entry.members kind, member.names.Shaped width

structure Tree.Shaped (tree : Tree) : Prop where
  distinct : tree.classes.keys.Nodup
  keyed : ∀ pair ∈ tree.classes, pair.1 = pair.2.names.firstName
  entries : ∀ pair ∈ tree.classes, pair.2.Shaped tree.namespaces.length

/-! Reading. -/

theorem resolveEscapes_ne_nil {part : List Char} (there : part ≠ []) : resolveEscapes part ≠ [] := by
  fun_cases resolveEscapes part <;> simp_all

theorem partText_ne_empty (escaped : Bool) {part : List Char} (there : part ≠ []) :
    partText escaped part ≠ "" := by
  intro empty
  have text := congrArg String.toList empty
  rw [partText, String.toList_ofList] at text
  cases escaped with
  | false => exact there text
  | true => exact resolveEscapes_ne_nil there text

theorem shaped_readRow {width : Nat} {escaped : Bool} {parts : List (List Char)} {row : Row}
    (read : readRow width escaped parts = .ok row) : row.Shaped width := by
  obtain ⟨rfl, narrow, name, named⟩ := readRow_eq_ok read
  refine .of_head ?_ named ?_
  · rw [rowOf, Row.widen, List.length_append, List.length_replicate, List.length_map]
    omega
  · cases parts with
    | nil =>
        -- An empty line has no names, and none stands in the places that are added.
        have member : some name ∈ Row.widen width ([] : Row) := List.mem_of_mem_head? named
        cases List.eq_of_mem_replicate member
    | cons part others =>
        by_cases empty : part = []
        · simp [rowOf, Row.widen, empty] at named
        · simp only [rowOf, Row.widen, List.map_cons, List.isEmpty_iff, if_neg empty,
            List.cons_append, List.head?_cons, Option.some.injEq] at named
          rw [← named]
          exact partText_ne_empty escaped empty

namespace Reading

variable {reading after : Reading} {text : List Char}

theorem shaped_put (shaped : reading.tree.Shaped) {key : String} {entry : ClassRow}
    (keyed : key = entry.names.firstName) (well : entry.Shaped reading.width) :
    (Tree.mk reading.tree.namespaces (reading.tree.classes.put key entry)).Shaped where
  distinct := Keyed.keys_put_nodup key entry _ shaped.distinct
  keyed pair member := by
    rcases Keyed.mem_put member with rfl | old
    · exact keyed
    · exact shaped.keyed pair old
  entries pair member := by
    rcases Keyed.mem_put member with rfl | old
    · exact well
    · exact shaped.entries pair old

theorem mem_addMember {kind place : MemberKind} {entry : ClassRow} {member other : MemberRow}
    (listed : other ∈ (entry.addMember kind member).members place) :
    other ∈ entry.members place ∨ other = member := by
  cases kind <;> cases place <;>
    simp only [ClassRow.addMember, ClassRow.members, List.mem_append, List.mem_singleton]
      at listed ⊢ <;> first | exact listed | exact .inl listed

theorem shaped_openClass {line : Line} (shaped : reading.tree.Shaped)
    (read : reading.openClass line = .ok after) : after.tree.Shaped := by
  obtain ⟨row, found, rfl⟩ := openClass_eq_ok read
  refine shaped_put shaped rfl ⟨shaped_readRow found, ?_⟩
  intro kind member listed
  cases kind <;> cases listed

theorem shaped_addMember {kind : MemberKind} {owner : String} {line : Line}
    (shaped : reading.tree.Shaped) (read : reading.addMember kind owner line = .ok after) :
    after.tree.Shaped := by
  obtain ⟨mark, desc, names, row, entry, -, found, known, rfl⟩ := addMember_eq_ok read
  have there := Keyed.mem_of_get? known
  have old := shaped.entries _ there
  refine shaped_put shaped ?_ ⟨?_, ?_⟩
  · cases kind <;> exact shaped.keyed _ there
  · cases kind <;> exact old.names
  · intro place other listed
    rcases mem_addMember listed with before | rfl
    · exact old.members place other before
    · exact shaped_readRow found

theorem shaped_readLine (shaped : reading.tree.Shaped) (read : reading.readLine text = .ok after) :
    after.tree.Shaped := by
  rcases readLine_cases read with ⟨-, opened⟩ | ⟨owner, kind, -, added⟩ | ⟨-, -, rfl⟩ | ⟨-, rfl⟩
  · exact shaped_openClass shaped opened
  · exact shaped_addMember shaped added
  · exact shaped
  · exact shaped

end Reading

theorem Tree.shaped_parse {origin text : String} {tree : Tree}
    (parsed : Tree.parse origin text = .ok tree) : tree.Shaped := by
  obtain ⟨header, rest, namespaces, reading, -, -, read, rfl⟩ := Tree.exists_of_parse parsed
  have start : (Tree.mk namespaces []).Shaped := ⟨List.nodup_nil, by simp, by simp⟩
  exact Reading.readLines_induction (fun reading => reading.tree.Shaped)
    (fun _ _ _ _ => Reading.shaped_readLine) start read

/-! Merging. -/

theorem keeps_placeColumns (namespaces incoming : List String) :
    namespaces <+: (placeColumns namespaces incoming).1 := by
  induction incoming generalizing namespaces with
  | nil => exact List.prefix_refl _
  | cons name rest ih =>
      unfold placeColumns
      split
      · exact ih namespaces
      · exact (List.prefix_append _ _).trans (ih _)

theorem placeColumns_of_root (root : String) (more rest : List String) :
    (placeColumns (root :: more) (root :: rest)).2 =
      0 :: (placeColumns (root :: more) rest).2 := by
  have first : (root :: more).findIdx? (· = root) = some 0 := by
    rw [List.findIdx?_cons, decide_eq_true rfl, if_pos rfl]
  rw [placeColumns, first]

theorem ClassRow.Shaped.widen {width more : Nat} {entry : ClassRow} (shaped : entry.Shaped width)
    (wider : width ≤ more) : (entry.widen more).Shaped more where
  names := shaped.names.widen wider
  members kind member listed := by
    have origin : ∃ old ∈ entry.members kind, member.names = old.names.widen more := by
      cases kind <;>
      · obtain ⟨old, there, rfl⟩ := List.mem_map.mp listed
        exact ⟨old, there, rfl⟩
    obtain ⟨old, there, same⟩ := origin
    rw [same]
    exact (shaped.members kind old there).widen wider

section Merge

variable {width more : Nat} {others : List Nat}

theorem shaped_mergeMember {member : MemberRow} {known : List MemberRow}
    (incoming : member.names.Shaped more) (wide : 0 < width)
    (shaped : ∀ old ∈ known, old.names.Shaped width) :
    ∀ made ∈ mergeMember (0 :: others) width member known, made.names.Shaped width := by
  induction known with
  | nil =>
      intro made listed
      rw [mergeMember, List.mem_singleton] at listed
      rw [listed]
      exact .fill_empty incoming wide others
  | cons old rest ih =>
      obtain ⟨first, later⟩ := List.forall_mem_cons.mp shaped
      intro made listed
      rw [mergeMember] at listed
      split at listed
      · rcases List.mem_cons.mp listed with rfl | kept
        · exact first.fill _ _
        · exact later made kept
      · rcases List.mem_cons.mp listed with rfl | kept
        · exact first
        · exact ih later made kept

theorem shaped_mergeMemberList {known incoming : List MemberRow} (wide : 0 < width)
    (shaped : ∀ old ∈ known, old.names.Shaped width)
    (arriving : ∀ member ∈ incoming, member.names.Shaped more) :
    ∀ made ∈ mergeMemberList (0 :: others) width known incoming, made.names.Shaped width := by
  induction incoming generalizing known with
  | nil => exact shaped
  | cons member rest ih =>
      obtain ⟨first, later⟩ := List.forall_mem_cons.mp arriving
      exact ih (shaped_mergeMember first wide shaped) later

theorem members_mergeClass (columns : List Nat) (width : Nat) (incoming known : ClassRow)
    (kind : MemberKind) : (mergeClass columns width incoming known).members kind =
      mergeMemberList columns width (known.members kind) (incoming.members kind) := by
  cases kind <;> rfl

theorem ClassRow.Shaped.merge {incoming known : ClassRow} (shaped : known.Shaped width)
    (arriving : incoming.Shaped more) (wide : 0 < width) :
    (mergeClass (0 :: others) width incoming known).Shaped width where
  names := shaped.names.fill _ _
  members kind := by
    rw [members_mergeClass]
    exact shaped_mergeMemberList wide (shaped.members kind) (arriving.members kind)

theorem ClassRow.Shaped.merge_empty {incoming : ClassRow} (arriving : incoming.Shaped more)
    (wide : 0 < width) :
    (mergeClass (0 :: others) width incoming ⟨emptyRow width, [], []⟩).Shaped width where
  names := .fill_empty arriving.names wide others
  members kind := by
    rw [members_mergeClass]
    refine shaped_mergeMemberList wide ?_ (arriving.members kind)
    intro old listed
    cases kind <;> cases listed

/-- A class goes into the class of its name or becomes a new one. -/
theorem shaped_adjust {namespaces : List String} {classes : Keyed String ClassRow} {key : String}
    {row : ClassRow} (wide : 0 < namespaces.length) (shaped : (Tree.mk namespaces classes).Shaped)
    (keyed : key = row.names.firstName) (arriving : row.Shaped more) :
    (Tree.mk namespaces (classes.adjust key ⟨emptyRow namespaces.length, [], []⟩
      (mergeClass (0 :: others) namespaces.length row))).Shaped where
  distinct := by
    rw [Keyed.keys_adjust]
    exact Keyed.keys_put_nodup _ _ _ shaped.distinct
  keyed made listed := by
    rcases Keyed.mem_adjust listed with ⟨old, rfl | there, rfl⟩ | kept
    · have named := Row.head?_fill_empty arriving.names wide others
      exact keyed.trans (Row.firstName_eq named).symm
    · have named := (shaped.entries _ there).names.named
      exact (shaped.keyed _ there).trans (Row.firstName_eq (Row.head?_fill named)).symm
    · exact shaped.keyed made kept
  entries made listed := by
    rcases Keyed.mem_adjust listed with ⟨old, rfl | there, rfl⟩ | kept
    · exact arriving.merge_empty wide
    · exact (shaped.entries _ there).merge arriving wide
    · exact shaped.entries made kept

/-- Classes are merged in one by one. -/
theorem shaped_mergeClasses {namespaces : List String} {classes arriving : Keyed String ClassRow}
    (wide : 0 < namespaces.length) (shaped : (Tree.mk namespaces classes).Shaped)
    (keyed : ∀ pair ∈ arriving, pair.1 = pair.2.names.firstName)
    (entries : ∀ pair ∈ arriving, pair.2.Shaped more) :
    (Tree.mk namespaces (arriving.foldl (fun done (key, row) =>
      done.adjust key ⟨emptyRow namespaces.length, [], []⟩
        (mergeClass (0 :: others) namespaces.length row)) classes)).Shaped := by
  induction arriving generalizing classes with
  | nil => exact shaped
  | cons pair rest ih =>
      obtain ⟨keyFirst, keyRest⟩ := List.forall_mem_cons.mp keyed
      obtain ⟨rowFirst, rowRest⟩ := List.forall_mem_cons.mp entries
      exact ih (shaped_adjust wide shaped keyFirst rowFirst) keyRest rowRest

end Merge

namespace Tree

theorem Shaped.widen {tree : Tree} (shaped : tree.Shaped) {namespaces : List String}
    (wider : tree.namespaces.length ≤ namespaces.length) :
    (Tree.mk namespaces
      (tree.classes.map fun (key, entry) => (key, entry.widen namespaces.length))).Shaped where
  distinct := by
    rw [Keyed.keys, List.map_map]
    exact shaped.distinct
  keyed pair member := by
    obtain ⟨⟨key, entry⟩, there, rfl⟩ := List.mem_map.mp member
    have named := Row.head?_widen (shaped.entries _ there).names namespaces.length
    exact (shaped.keyed _ there).trans (Row.firstName_eq named).symm
  entries pair member := by
    obtain ⟨⟨key, entry⟩, there, rfl⟩ := List.mem_map.mp member
    exact (shaped.entries _ there).widen wider

theorem Shaped.merge {tree other merged : Tree} (shaped : tree.Shaped) (arriving : other.Shaped)
    (done : tree.merge other = .ok merged) : merged.Shaped := by
  unfold Tree.merge at done
  split at done
  · cases done
    exact arriving
  · rename_i root more header
    split at done
    · rename_i same
      obtain ⟨rest, incoming⟩ := List.head?_eq_some_iff.mp same
      have longer := (keeps_placeColumns tree.namespaces other.namespaces).length_le
      have first : (placeColumns tree.namespaces other.namespaces).2 =
          0 :: (placeColumns tree.namespaces rest).2 := by
        rw [header, incoming, placeColumns_of_root]
      have wide : 0 < tree.namespaces.length := by
        rw [header]
        exact Nat.succ_pos _
      dsimp only at done
      rw [first] at done
      cases done
      exact shaped_mergeClasses (Nat.lt_of_lt_of_le wide longer) (shaped.widen longer) arriving.keyed
        arriving.entries
    · cases done

/-- Mapping data that came from files, read and merged in whatever order. -/
inductive Built : Tree → Prop where
  | empty : Built .empty
  | parsed {origin text : String} {tree : Tree} (read : Tree.parse origin text = .ok tree) :
      Built tree
  | merged {tree other merged : Tree} (left : Built tree) (right : Built other)
      (done : tree.merge other = .ok merged) : Built merged

theorem Built.shaped {tree : Tree} (built : tree.Built) : tree.Shaped := by
  induction built with
  | empty => exact ⟨List.nodup_nil, by simp [Tree.empty], by simp [Tree.empty]⟩
  | parsed read => exact shaped_parse read
  | merged left right done leftShaped rightShaped => exact leftShaped.merge rightShaped done

end Tree

end ArchiveRemap.Tiny
