import ArchiveRemap.Proofs.RenameTable.Texts
import ArchiveRemap.Proofs.SideFile.Grammar
import ArchiveRemap.Proofs.Symbol.Descriptor

/-!
Access wideners that go from hop to hop. Where all new names are words that a line can hold, a
file that one hop has renamed has the header and the entries that the next hop takes. It has the
same lines but for the names in them, and but for the returns at their ends: a line loses one
with each reading.
-/

namespace ArchiveRemap

/-! Words and comments of a line that is written again. -/

/-- A line is its content and its comment. -/
theorem eq_of_cutComment (line : List Char) :
    '#' ∉ (cutComment line).1 ∧ ∀ comment ∈ (cutComment line).2,
      line = (cutComment line).1 ++ comment ∧ comment.head? = some '#' := by
  unfold cutComment
  cases found : Text.cut '#' line with
  | none => exact ⟨Text.cut_eq_none_iff.mp found, nofun⟩
  | some sides =>
      obtain ⟨content, rest⟩ := sides
      refine ⟨Text.not_mem_of_cut found, fun comment held => ?_⟩
      cases held
      exact ⟨Text.eq_of_cut found, rfl⟩

theorem content_subset (line : List Char) : (cutComment line).1 ⊆ line := by
  unfold cutComment
  cases found : Text.cut '#' line with
  | none => exact List.Subset.refl line
  | some sides =>
      rw [Text.eq_of_cut found]
      exact List.subset_append_left ..

/-- The words of a line are plain. -/
theorem plain_of_mem_lineParts {line : List Char} {word : String}
    (member : word ∈ (lineParts line).1) : PlainWord word ∧ word.toList ⊆ line := by
  obtain ⟨part, listed, rfl⟩ := List.mem_map.mp member
  obtain ⟨split, filled⟩ := List.mem_filter.mp listed
  obtain ⟨solid, inside⟩ := Text.mem_splitOnP split
  have marked : '#' ∉ part := fun mark => (eq_of_cutComment line).1 (inside mark)
  have nonempty : part ≠ [] := by simpa using filled
  rw [String.toList_ofList]
  exact ⟨⟨by rwa [String.toList_ofList], by rwa [String.toList_ofList],
    by rwa [String.toList_ofList]⟩, fun c there => content_subset line (inside there)⟩

theorem toList_joinWords (words : List String) (comment : Option (List Char)) :
    (joinWords "\t" words comment).toList =
      ['\t'].intercalate (words.map String.toList) ++ comment.elim [] ('\t' :: ·) := by
  unfold joinWords
  rw [String.toList_append, String.toList_intercalate]
  cases comment with
  | none => rfl
  | some text =>
      simp only [String.toList_append, String.toList_ofList, Option.elim_some]
      rfl

/-- Plain words and a comment are the parts of the line that they are written to. -/
theorem lineParts_joinWords {words : List String} (plain : ∀ word ∈ words, PlainWord word)
    {comment : Option (List Char)} (marked : ∀ text ∈ comment, text.head? = some '#') :
    lineParts (joinWords "\t" words comment).toList = (words, comment) := by
  have alone := @lineParts_intercalate '\t' rfl words plain
  cases comment with
  | none =>
      rw [toList_joinWords, Option.elim_none, List.append_nil]
      exact alone
  | some text =>
      -- The comment is cut off at its own mark, and the tab in front of it separates nothing.
      obtain ⟨rest, rfl⟩ := List.head?_eq_some_iff.mp (marked text rfl)
      have unmarked : '#' ∉ ['\t'].intercalate (words.map String.toList) ++ ['\t'] := by
        rw [List.mem_append, not_or]
        exact ⟨unmarked_intercalate rfl plain, by simp⟩
      have read : wordTexts (['\t'].intercalate (words.map String.toList) ++ ['\t']) = words := by
        rw [wordTexts, words_append_blank rfl, words_intercalate rfl plain]
        simp [Text.words]
      have line : (joinWords "\t" words (some ('#' :: rest))).toList =
          (['\t'].intercalate (words.map String.toList) ++ ['\t']) ++ '#' :: rest := by
        rw [toList_joinWords, List.append_assoc]
        rfl
      rw [line, lineParts, cutComment, Text.cut_append unmarked, read]

theorem dropReturn_cons {c : Char} (kept : c ≠ '\r') (rest : List Char) :
    Text.dropReturn (c :: rest) = c :: Text.dropReturn rest :=
  @Text.dropReturn_append [c] (by simpa using kept) rest

theorem words_dropReturn (content : List Char) :
    wordTexts (Text.dropReturn content) = wordTexts content := by
  rw [Text.dropReturn]
  split
  · rename_i back
    conv_rhs => rw [← List.dropLast_append_getLast? _ back]
    rw [wordTexts, wordTexts, words_append_blank rfl]
    simp [Text.words]
  · rfl

theorem lineParts_dropReturn (line : List Char) :
    lineParts (Text.dropReturn line) =
      ((lineParts line).1, (lineParts line).2.map Text.dropReturn) := by
  unfold lineParts cutComment
  cases found : Text.cut '#' line with
  | none =>
      have unmarked : Text.cut '#' (Text.dropReturn line) = none := by
        rw [Text.cut_eq_none_iff] at found ⊢
        exact fun mark => found (Text.dropReturn_subset line mark)
      rw [unmarked]
      exact Prod.ext (words_dropReturn line) rfl
  | some sides =>
      obtain ⟨content, rest⟩ := sides
      have dropped : Text.dropReturn line = content ++ '#' :: Text.dropReturn rest := by
        have kept : (content ++ ['#']).getLast? ≠ some '\r' := by
          rw [List.getLast?_concat]
          decide
        rw [Text.eq_of_cut found, List.append_cons, Text.dropReturn_append kept, ← List.append_cons]
      rw [dropped, Text.cut_append (Text.not_mem_of_cut found)]
      dsimp only
      rw [Option.map_some, dropReturn_cons (by decide)]

/-! New names that are words. -/

instance : DecidablePred PlainWord := fun word =>
  decidable_of_iff (word.toList ≠ [] ∧ word.toList.all (!Text.isBlank ·) ∧ '#' ∉ word.toList)
    ⟨fun all => ⟨all.1, by simpa using all.2.1, all.2.2⟩,
      fun plain => ⟨plain.nonempty, by simpa using plain.solid, plain.unmarked⟩⟩

namespace RenameTable

/-- The target namespace and all names that a table gives are words that a line can hold. -/
structure Wordly (table : RenameTable) : Prop where
  target : PlainWord table.target
  classes : ∀ name new, table.mapClass? name = some new → PlainWord new
  members : ∀ kind owner name desc new, table.mapMember? kind owner name desc = some new →
    PlainWord new

theorem Wordly.of_all {table : RenameTable} (target : PlainWord table.target)
    (names : table.All (fun _ => True) (fun _ => True) PlainWord) : table.Wordly where
  target := target
  classes name new given := by
    obtain ⟨entry, known, rfl⟩ := Option.map_eq_some_iff.mp given
    exact (names _ (Keyed.mem_of_get? known)).2.mapped
  members kind owner name desc new given := by
    obtain ⟨entry, known, given⟩ := Option.bind_eq_some_iff.mp given
    obtain ⟨member, found, given⟩ := Option.bind_eq_some_iff.mp given
    cases given
    exact ((names _ (Keyed.mem_of_get? known)).2.members kind member
      (List.mem_of_find?_eq_some found)).mapped

end RenameTable

namespace Renamer

variable {renamer : Renamer} {name : String}

theorem plain_mapClass (wordly : renamer.table.Wordly) (plain : PlainWord name) :
    PlainWord (renamer.mapClass name) := by
  rw [mapClass]
  cases given : renamer.table.mapClass? name with
  | none => exact plain
  | some new => exact wordly.classes name new given

theorem plain_mapMember (wordly : renamer.table.Wordly) (plain : PlainWord name)
    (kind : MemberKind) (owner desc : String) :
    PlainWord (renamer.mapMember kind owner name desc) := by
  rw [mapMember]
  split
  · exact plain
  · cases given : renamer.inherited? kind owner name desc with
    | none => exact plain
    | some new =>
        unfold inherited? at given
        split at given
        · rename_i own
          cases given
          exact wordly.members _ _ _ _ _ own
        · obtain ⟨ancestor, -, found⟩ := List.exists_of_findSome?_eq_some given
          exact wordly.members _ _ _ _ _ found

/-- What stands in a renamed descriptor comes from the descriptor or from a new name. -/
theorem mem_mapDesc {desc : String} {c : Char} (member : c ∈ (renamer.mapDesc desc).toList) :
    c ∈ desc.toList ∨ c = 'L' ∨ c = ';' ∨
      ∃ name new, renamer.table.mapClass? name = some new ∧ c ∈ new.toList := by
  have old := Descriptor.write_pieces desc.toList
  rw [mapDesc, RenameTable.mapDesc, Descriptor.rename, String.toList_ofList] at member
  rw [← old]
  obtain ⟨renamed, listed, inside⟩ := List.mem_flatMap.mp member
  obtain ⟨piece, there, rfl⟩ := List.mem_map.mp listed
  cases piece with
  | mark mark => exact .inl (List.mem_flatMap.mpr ⟨_, there, inside⟩)
  | reference name =>
      simp only [Descriptor.Piece.rename, Descriptor.Piece.write, List.mem_append, List.mem_cons,
        List.not_mem_nil, or_false] at inside
      rcases inside with (opened | named) | closed
      · exact .inr (.inl opened)
      · cases given : renamer.table.mapClass? name with
        | none =>
            rw [given] at named
            exact .inl (List.mem_flatMap.mpr ⟨_, there, by
              simp only [Descriptor.Piece.write, List.mem_append, List.mem_cons]
              exact .inl (.inr named)⟩)
        | some new =>
            rw [given] at named
            exact .inr (.inr (.inr ⟨name, new, given, named⟩))
      · exact .inr (.inr (.inl closed))

theorem plain_mapDesc (wordly : renamer.table.Wordly) {desc : String} (plain : PlainWord desc) :
    PlainWord (renamer.mapDesc desc) := by
  have sound : ∀ c ∈ (renamer.mapDesc desc).toList, Text.isBlank c = false ∧ c ≠ '#' := by
    intro c member
    rcases mem_mapDesc member with old | rfl | rfl | ⟨name, new, given, inside⟩
    · exact ⟨plain.solid c old, fun mark => plain.unmarked (mark ▸ old)⟩
    · exact ⟨rfl, by decide⟩
    · exact ⟨rfl, by decide⟩
    · have word := wordly.classes name new given
      exact ⟨word.solid c inside, fun mark => word.unmarked (mark ▸ inside)⟩
  refine ⟨fun empty => ?_, fun c member => (sound c member).1, fun mark => (sound _ mark).2 rfl⟩
  have head : (renamer.mapDesc desc).toList.head? = desc.toList.head? :=
    Descriptor.head?_rename _ desc
  rw [empty] at head
  exact plain.nonempty (List.head?_eq_none_iff.mp head.symm)

end Renamer

/-! A line and what comes out for it. -/

/-- A line without the returns at its end. -/
def withoutReturns (line : List Char) : List Char := Text.trimEnd (· = '\r') line

theorem withoutReturns_dropReturn (line : List Char) :
    withoutReturns (Text.dropReturn line) = withoutReturns line := by
  rw [Text.dropReturn]
  split
  · rename_i back
    conv_rhs => rw [← List.dropLast_append_getLast? _ back]
    simp [withoutReturns, Text.trimEnd]
  · rfl

namespace Widener

variable {renamer : Renamer} {line out : List Char}

/-- A line and the line in its place: the same words but for names, the same comment, and the
same line where there are no words. Returns at the end do not count. -/
structure Kept (line out : List Char) : Prop where
  count : (lineParts out).1.length = (lineParts line).1.length
  kind : (lineParts out).1.take 2 = (lineParts line).1.take 2
  comment : (lineParts out).2.map withoutReturns = (lineParts line).2.map withoutReturns
  quiet : (lineParts line).1 = [] → withoutReturns out = withoutReturns line

theorem Kept.refl (line : List Char) : Kept line line := ⟨rfl, rfl, rfl, fun _ => rfl⟩

/-- A line can lose a return when it is read. -/
theorem Kept.dropReturn (kept : Kept line out) : Kept line (Text.dropReturn out) where
  count := by rw [lineParts_dropReturn]; exact kept.count
  kind := by rw [lineParts_dropReturn]; exact kept.kind
  comment := by
    rw [lineParts_dropReturn, ← kept.comment, Option.map_map]
    exact congrArg (Option.map · _) (funext withoutReturns_dropReturn)
  quiet silent := (withoutReturns_dropReturn out).trans (kept.quiet silent)

/-- A line that can stand in place of another in a file. -/
structure Replaces (line out : List Char) : Prop extends Kept line out where
  unbroken : '\n' ∉ line → '\n' ∉ out
  filled : line ≠ [] → out ≠ []

theorem Replaces.refl (line : List Char) : Replaces line line := ⟨Kept.refl line, id, id⟩

/-- Words in place of as many others, with the same two in front. -/
theorem replaces_joinWords {words : List String} (plain : ∀ word ∈ words, PlainWord word)
    (there : (lineParts line).1 ≠ []) (count : words.length = (lineParts line).1.length)
    (kind : words.take 2 = (lineParts line).1.take 2) :
    Replaces line (joinWords "\t" words (lineParts line).2).toList ∧
      lineParts (joinWords "\t" words (lineParts line).2).toList =
        (words, (lineParts line).2) := by
  have parts : lineParts (joinWords "\t" words (lineParts line).2).toList =
      (words, (lineParts line).2) :=
    lineParts_joinWords plain fun text held => ((eq_of_cutComment line).2 text held).2
  refine ⟨⟨⟨?_, ?_, ?_, fun silent => absurd silent there⟩, fun unbroken feed => ?_,
    fun _ empty => ?_⟩, parts⟩
  · rw [parts, count]
  · rw [parts, kind]
  · rw [parts]
  · -- A line feed would have to come from a word, which has no blank, or from the comment.
    rw [toList_joinWords, List.mem_append] at feed
    rcases feed with words | comment
    · rcases Text.mem_intercalate words with same | ⟨text, listed, inside⟩
      · cases same
      · obtain ⟨word, member, rfl⟩ := List.mem_map.mp listed
        cases (plain word member).solid _ inside
    · cases held : (lineParts line).2 with
      | none =>
          rw [held] at comment
          cases comment
      | some text =>
          rw [held, Option.elim_some, List.mem_cons] at comment
          refine unbroken ?_
          rw [((eq_of_cutComment line).2 text held).1]
          exact List.mem_append_right _ (comment.resolve_left (by decide))
  · have nothing : words = [] := (congrArg Prod.fst (empty ▸ parts)).symm
    rw [nothing, List.length_nil] at count
    exact there (List.length_eq_zero_iff.mp count.symm)

/-- The new words of an entry are those of an entry again. -/
theorem entry_renamed (wordly : renamer.table.Wordly) {words renamed : List String}
    (plain : ∀ word ∈ words, PlainWord word)
    (entry : renameEntryWords renamer words = .ok renamed) :
    EntryForm renamed ∧ (∀ word ∈ renamed, PlainWord word) ∧ renamed.length = words.length ∧
      renamed.take 2 = words.take 2 := by
  cases renameEntryWords_ok_iff.mp ⟨renamed, entry⟩ with
  | ofClass known name =>
      rw [renameEntryWords_class known] at entry
      cases entry
      simp only [List.forall_mem_cons] at plain ⊢
      obtain ⟨access, word, first, -⟩ := plain
      exact ⟨.ofClass known _, ⟨access, word, Renamer.plain_mapClass wordly first, nofun⟩, rfl,
        rfl⟩
  | ofMember known kind owner name desc =>
      rw [renameEntryWords_member known] at entry
      cases entry
      simp only [List.forall_mem_cons] at plain ⊢
      obtain ⟨access, word, first, second, third, -⟩ := plain
      exact ⟨.ofMember known kind _ _ _, ⟨access, word, Renamer.plain_mapClass wordly first,
        Renamer.plain_mapMember wordly second kind owner desc, Renamer.plain_mapDesc wordly third,
        nofun⟩, rfl, rfl⟩

theorem entryLine_replaces (wordly : renamer.table.Wordly) {out : String}
    (entry : entryLine renamer line = .ok out) :
    Replaces line out.toList ∧ IsEntryLine out.toList := by
  by_cases words : (lineParts line).1 = []
  · rw [entryLine_of_quiet words] at entry
    cases entry
    rw [String.toList_ofList]
    exact ⟨Replaces.refl line, .inl words⟩
  · rw [entryLine_of_words words] at entry
    cases renamed : renameEntryWords renamer (lineParts line).1 with
    | error cause =>
        rw [renamed] at entry
        cases entry
    | ok written =>
        rw [renamed] at entry
        cases entry
        obtain ⟨form, plain, count, kind⟩ := entry_renamed wordly
          (fun word listed => (plain_of_mem_lineParts listed).1) renamed
        obtain ⟨replaces, parts⟩ := replaces_joinWords plain words count kind
        refine ⟨replaces, .inr ?_⟩
        rw [parts]
        exact form

theorem header_replaces (wordly : renamer.table.Wordly) {lines : List (List Char)}
    (headed : Headed renamer.table.source lines) :
    Replaces headed.header
        (joinWords "\t" ["accessWidener", headed.version, renamer.table.target]
          headed.comment).toList ∧
      lineParts (joinWords "\t" ["accessWidener", headed.version, renamer.table.target]
          headed.comment).toList =
        (["accessWidener", headed.version, renamer.table.target], headed.comment) := by
  obtain ⟨words, comment⟩ := Prod.mk.inj headed.parts
  have plain : ∀ word ∈ (["accessWidener", headed.version, renamer.table.source] : List String),
      PlainWord word := fun word listed =>
    (@plain_of_mem_lineParts headed.header word (by rwa [headed.parts])).1
  simp only [List.forall_mem_cons] at plain
  have read := @replaces_joinWords headed.header
    ["accessWidener", headed.version, renamer.table.target]
    (by
      simp only [List.forall_mem_cons]
      exact ⟨plain.1, plain.2.1, wordly.target, nofun⟩)
    (by rw [headed.parts]; nofun) (by rw [headed.parts]; rfl) (by rw [headed.parts]; rfl)
  rwa [congrArg Prod.snd headed.parts] at read

end Widener

/-! Lines that are put together and read again. -/

/-- A line as it is read: a return at its end may be gone. -/
def Worn (line read : List Char) : Prop := read = line ∨ read = Text.dropReturn line

theorem Worn.words_eq {line read : List Char} (worn : Worn line read) :
    (lineParts read).1 = (lineParts line).1 := by
  rcases worn with rfl | rfl
  · rfl
  · rw [lineParts_dropReturn]

theorem Widener.Kept.worn {line out read : List Char} (kept : Widener.Kept line out)
    (worn : Worn out read) : Widener.Kept line read := by
  rcases worn with rfl | rfl
  · exact kept
  · exact kept.dropReturn

/-- The characters of lines that are put together. -/
def joined (ended : Bool) (parts : List (List Char)) : List Char :=
  ['\n'].intercalate parts ++ if ended then ['\n'] else []

theorem toList_joinLines (text : String) (lines : List String) :
    (joinLines text lines).toList =
      joined (text.toList.getLast? = some '\n') (lines.map String.toList) := by
  rw [joinLines, String.toList_append, String.toList_intercalate, joined]
  congr 1
  split <;> simp_all

theorem joined_cons (ended : Bool) (part next : List Char) (more : List (List Char)) :
    joined ended (part :: next :: more) = part ++ '\n' :: joined ended (next :: more) := by
  rw [joined, List.intercalate_cons_cons, List.append_assoc, List.append_assoc,
    List.singleton_append]
  rfl

/-- Lines are read as they were put together, if the last one is ended or not empty. -/
theorem lines_joined {ended : Bool} {parts : List (List Char)} (there : parts ≠ [])
    (unbroken : ∀ part ∈ parts, '\n' ∉ part)
    (closed : ended = false → ∀ last ∈ parts.getLast?, last ≠ []) :
    List.Forall₂ Worn parts (Text.lines (joined ended parts)) := by
  induction parts with
  | nil => exact absurd rfl there
  | cons part rest ih =>
      obtain ⟨first, later⟩ := List.forall_mem_cons.mp unbroken
      cases rest with
      | nil =>
          -- The last line loses a return only where it is ended.
          cases ended with
          | true =>
              have whole : joined true [part] = part ++ '\n' :: [] := by simp [joined]
              rw [whole, Text.lines_cons first, Text.lines_nil]
              exact .cons (.inr rfl) .nil
          | false =>
              have whole : joined false [part] = part := by simp [joined]
              have filled : part ≠ [] := closed rfl part rfl
              rw [whole, Text.lines_of_uncut (Text.cut_eq_none_iff.mpr first),
                if_neg (by simpa using filled)]
              exact .cons (.inl rfl) .nil
      | cons next more =>
          rw [joined_cons, Text.lines_cons first]
          exact .cons (.inr rfl) (ih (List.cons_ne_nil _ _) later closed)

theorem Text.lines_eq_nil_iff {text : List Char} : lines text = [] ↔ text = [] := by
  cases found : cut '\n' text with
  | none => rw [lines_of_uncut found]; cases text <;> simp
  | some sides =>
      rw [lines_of_cut found, eq_of_cut found]
      simp

/-- The last line of a text that does not end in a line feed is not empty. -/
theorem Text.last_line_filled {text : List Char} (unended : text.getLast? ≠ some '\n') :
    ∀ last ∈ (lines text).getLast?, last ≠ [] := by
  induction text using lines.induct with
  | case1 text first rest found ih =>
      have whole : text = (first ++ ['\n']) ++ rest := by
        rw [eq_of_cut found, List.append_assoc, List.singleton_append]
      have filled : rest ≠ [] := by
        rintro rfl
        rw [whole, List.append_nil, List.getLast?_concat] at unended
        exact unended rfl
      rw [whole, List.getLast?_append_of_ne_nil _ filled] at unended
      have more : lines rest ≠ [] := fun none => filled (lines_eq_nil_iff.mp none)
      rw [lines_of_cut found, ← List.singleton_append, List.getLast?_append_of_ne_nil _ more]
      exact ih unended
  | case2 text missed empty =>
      rw [lines_of_uncut missed, if_pos empty]
      intro last held
      cases held
  | case3 text missed filled =>
      rw [lines_of_uncut missed, if_neg filled]
      intro last held
      cases held
      simpa using filled

theorem getLast?_joined {parts : List (List Char)} (ended : Bool)
    (unbroken : ∀ part ∈ parts, '\n' ∉ part)
    (closed : ended = false → ∀ last ∈ parts.getLast?, last ≠ []) :
    (joined ended parts).getLast? = some '\n' ↔ ended = true := by
  cases ended with
  | true => exact iff_of_true List.getLast?_concat rfl
  | false =>
      refine iff_of_false (fun feed => ?_) Bool.false_ne_true
      rw [joined, if_neg Bool.false_ne_true, List.append_nil] at feed
      rcases List.eq_nil_or_concat parts with rfl | ⟨front, last, rfl⟩
      · cases feed
      · rw [List.concat_eq_append] at *
        have filled : last ≠ [] := closed rfl last List.getLast?_concat
        have ends : last.getLast? = some '\n' := by
          by_cases alone : front = []
          · subst alone
            rwa [List.nil_append, List.intercalate_singleton] at feed
          · rwa [Text.intercalate_concat alone, List.append_cons,
              List.getLast?_append_of_ne_nil _ filled] at feed
        exact unbroken last (List.mem_append_right _ (List.mem_singleton_self _))
          (List.mem_of_getLast? ends)

theorem forall₂_last {α β : Type} {related : α → β → Prop} {left : List α} {right : List β}
    (all : List.Forall₂ related left right) :
    ∀ b ∈ right.getLast?, ∃ a ∈ left.getLast?, related a b := by
  induction all with
  | nil => nofun
  | @cons a b lefts rights here below ih =>
      cases below with
      | nil =>
          intro last held
          cases held
          exact ⟨a, rfl, here⟩
      | cons next more => exact ih

theorem forall₂_kept {lines outs reads : List (List Char)}
    (replaces : List.Forall₂ Widener.Replaces lines outs) (worn : List.Forall₂ Worn outs reads) :
    List.Forall₂ Widener.Kept lines reads := by
  induction replaces generalizing reads with
  | nil =>
      cases worn
      exact .nil
  | cons here below ih =>
      cases worn with
      | cons first later => exact .cons (here.toKept.worn first) (ih later)

namespace Widener

variable {renamer : Renamer}

theorem entries_of_worn {lines reads : List (List Char)} (worn : List.Forall₂ Worn lines reads)
    (entries : ∀ line ∈ lines, IsEntryLine line) : ∀ read ∈ reads, IsEntryLine read := by
  refine forall_right_of_forall₂ worn fun line listed read here => ?_
  rw [IsEntryLine, here.words_eq]
  exact entries line listed

/-- A file whose lines are read again, with a return less, still has its header and entries. -/
theorem headed_of_worn {source : String} {lines reads : List (List Char)}
    (headed : Headed source lines) (entries : ∀ line ∈ headed.rest, IsEntryLine line)
    (worn : List.Forall₂ Worn lines reads) :
    ∃ again : Headed source reads, ∀ line ∈ again.rest, IsEntryLine line := by
  obtain ⟨quiet, header, rest, version, comment, rfl, silent, parts, numbered⟩ := headed
  dsimp only at entries
  induction quiet generalizing reads with
  | nil =>
      cases worn with
      | @cons _ read _ more here below =>
          have words := here.words_eq.trans (congrArg Prod.fst parts)
          exact ⟨⟨[], read, more, version, (lineParts read).2, rfl, nofun, Prod.ext words rfl,
            numbered⟩, entries_of_worn below entries⟩
  | cons line quiet ih =>
      cases worn with
      | cons here below =>
          obtain ⟨first, later⟩ := List.forall_mem_cons.mp silent
          obtain ⟨again, kept⟩ := ih later below
          exact ⟨{ again with
            quiet := _ :: again.quiet
            whole := congrArg _ again.whole
            silent := List.forall_mem_cons.mpr ⟨here.words_eq.trans first, again.silent⟩ }, kept⟩

/-- Everything that a hop does to a file with the right header: the lines that come out are put
together again, or the first line that is no entry is named by its number. -/
theorem transform_of_headed {text : String}
    (headed : Headed renamer.table.source (Text.lines text.toList)) (ignore : Bool)
    (path : String) :
    transform ignore path text renamer =
      match renameEntryLines renamer (headed.quiet.length + 2) headed.rest with
      | .ok outs => .ok (joinLines text (headed.quiet.map String.ofList ++
          joinWords "\t" ["accessWidener", headed.version, renamer.table.target]
            headed.comment :: outs), [])
      | .error fault => .error (.widener path fault) := by
  have number : 1 + headed.quiet.length + 1 = headed.quiet.length + 2 := by omega
  rw [transform, renameAllLines_of_headed headed 1, number]
  cases renameEntryLines renamer (headed.quiet.length + 2) headed.rest <;> rfl

/-- A file with the right header is taken exactly if all its other lines are entries or have no
words. -/
theorem transform_ok_iff {text : String}
    (headed : Headed renamer.table.source (Text.lines text.toList)) (ignore : Bool)
    (path : String) :
    (∃ output, transform ignore path text renamer = .ok (output, [])) ↔
      ∀ line ∈ headed.rest, IsEntryLine line := by
  rw [transform_of_headed headed, ← @exists_renameEntryLines_iff renamer
    (headed.quiet.length + 2)]
  cases renameEntryLines renamer (headed.quiet.length + 2) headed.rest with
  | error fault => exact iff_of_false nofun nofun
  | ok outs => exact iff_of_true ⟨_, rfl⟩ ⟨outs, rfl⟩

/-- The lines that come out stand in place of the old ones. They have the header of the target
namespace and entries behind it. -/
theorem replaces_of_headed (wordly : renamer.table.Wordly) {lines : List (List Char)}
    (headed : Headed renamer.table.source lines) {outs : List String} {number : Nat}
    (run : renameEntryLines renamer number headed.rest = .ok outs) :
    ∃ (parts : List (List Char)) (written : Headed renamer.table.target parts),
      (headed.quiet.map String.ofList ++
        joinWords "\t" ["accessWidener", headed.version, renamer.table.target] headed.comment ::
          outs).map String.toList = parts ∧
      List.Forall₂ Replaces lines parts ∧ ∀ line ∈ written.rest, IsEntryLine line := by
  obtain ⟨header, read⟩ := header_replaces wordly headed
  have entries := (renameEntryLines_ok_iff.mp run).imp fun line out => entryLine_replaces wordly
  refine ⟨_, ⟨headed.quiet, _, outs.map String.toList, headed.version, headed.comment, rfl,
    headed.silent, read, headed.numbered⟩, ?_, ?_, ?_⟩
  · rw [List.map_append, List.map_map, List.map_cons]
    congr 1
    exact (List.map_congr_left fun line _ => String.toList_ofList).trans (List.map_id' _)
  · conv => enter [2]; rw [headed.whole]
    refine List.rel_append (List.forall₂_same.mpr fun line _ => Replaces.refl line) ?_
    exact .cons header (List.forall₂_map_right_iff.mpr (entries.imp fun _ _ => And.left))
  · exact forall_right_of_forall₂ (List.forall₂_map_right_iff.mpr entries) fun _ _ _ => And.right

/-- A file that is renamed has the right header; a file of another namespace comes with a
notice. -/
theorem headed_of_transform {ignore : Bool} {path text output : String}
    (taken : transform ignore path text renamer = .ok (output, [])) :
    Nonempty (Headed renamer.table.source (Text.lines text.toList)) := by
  unfold transform at taken
  split at taken
  · cases taken
  · rename_i run
    exact exists_headed run
  · split at taken <;> cases taken

/-- A file with the right header is renamed, or it is refused for a line behind the header that
has words but not those of an entry, by the number of that line. -/
theorem transform_or_refused {text : String}
    (headed : Headed renamer.table.source (Text.lines text.toList)) (ignore : Bool)
    (path : String) :
    (∃ output, transform ignore path text renamer = .ok (output, [])) ∨
      ∃ index line cause, headed.quiet.length < index ∧
        (Text.lines text.toList)[index]? = some line ∧ ¬ IsEntryLine line ∧
        transform ignore path text renamer =
          .error (.widener path (.badEntry (index + 1) cause)) := by
  rw [transform_of_headed headed]
  cases run : renameEntryLines renamer (headed.quiet.length + 2) headed.rest with
  | ok outs => exact .inl ⟨_, rfl⟩
  | error fault =>
      obtain ⟨front, line, back, cause, order, -, none, rfl⟩ := renameEntryLines_error run
      refine .inr ⟨headed.quiet.length + 1 + front.length, line, cause, by omega, ?_, none, ?_⟩
      · have whole : Text.lines text.toList =
            (headed.quiet ++ headed.header :: front) ++ line :: back := by
          refine headed.whole.trans ?_
          rw [order, List.append_assoc, List.cons_append]
        have number : headed.quiet.length + 1 + front.length =
            (headed.quiet ++ headed.header :: front).length := by
          rw [List.length_append, List.length_cons]
          omega
        have there : ((headed.quiet ++ headed.header :: front) ++ line :: back)[
            (headed.quiet ++ headed.header :: front).length]? = some line := by
          rw [List.getElem?_append_right (Nat.le_refl _), Nat.sub_self]
          rfl
        rwa [← whole, ← number] at there
      · have number : headed.quiet.length + 2 + front.length =
            headed.quiet.length + 1 + front.length + 1 := by omega
        rw [number]

theorem output_of_headed (wordly : renamer.table.Wordly) {ignore : Bool} {path text output : String}
    (headed : Headed renamer.table.source (Text.lines text.toList))
    (taken : transform ignore path text renamer = .ok (output, [])) :
    List.Forall₂ Kept (Text.lines text.toList) (Text.lines output.toList) ∧
      (output.toList.getLast? = some '\n' ↔ text.toList.getLast? = some '\n') ∧
      ∃ written : Headed renamer.table.target (Text.lines output.toList),
        ∀ line ∈ written.rest, IsEntryLine line := by
  rw [transform_of_headed headed] at taken
  cases run : renameEntryLines renamer (headed.quiet.length + 2) headed.rest with
  | error fault =>
      rw [run] at taken
      cases taken
  | ok outs =>
      rw [run] at taken
      cases taken
      obtain ⟨parts, written, same, replaces, entries⟩ := replaces_of_headed wordly headed run
      have unbroken : ∀ part ∈ parts, '\n' ∉ part :=
        forall_right_of_forall₂ replaces fun line listed part here =>
          here.unbroken (Text.not_mem_of_mem_lines listed)
      -- The last line is empty only where the text is ended.
      have closed : decide (text.toList.getLast? = some '\n') = false →
          ∀ last ∈ parts.getLast?, last ≠ [] := by
        intro unended last held
        obtain ⟨line, first, here⟩ := forall₂_last replaces last held
        exact here.filled (Text.last_line_filled (of_decide_eq_false unended) line first)
      have there : parts ≠ [] := by
        rw [written.whole]
        simp
      have worn := lines_joined there unbroken closed
      rw [toList_joinLines, same]
      refine ⟨forall₂_kept replaces worn, ?_, headed_of_worn written entries worn⟩
      rw [getLast?_joined _ unbroken closed, decide_eq_true_eq]

/-- An access widener survives the hops. It is renamed exactly if it has the right header and all
other lines are entries or have no words. Where all new names are words, what comes out is renamed
by every hop from the target namespace on. It has the same lines but for names and returns at the
ends, and it ends in a line feed exactly if the file did. A file with the right header is refused
for nothing but a line behind the header that is no entry, and by the number of that line. -/
theorem widener_survives {renamer : Renamer} (wordly : renamer.table.Wordly) (ignore : Bool)
    (path text : String) :
    ((∃ output, transform ignore path text renamer = .ok (output, [])) ↔
      ∃ headed : Headed renamer.table.source (Text.lines text.toList),
        ∀ line ∈ headed.rest, IsEntryLine line) ∧
    (∀ output, transform ignore path text renamer = .ok (output, []) →
      (∀ next : Renamer, next.table.source = renamer.table.target → ∀ ignore path,
        ∃ again, transform ignore path output next = .ok (again, [])) ∧
      (Text.lines output.toList).length = (Text.lines text.toList).length ∧
      List.Forall₂ Kept (Text.lines text.toList) (Text.lines output.toList) ∧
      (output.toList.getLast? = some '\n' ↔ text.toList.getLast? = some '\n')) ∧
    ∀ headed : Headed renamer.table.source (Text.lines text.toList),
      (∃ output, transform ignore path text renamer = .ok (output, [])) ∨
      ∃ index line cause, headed.quiet.length < index ∧
        (Text.lines text.toList)[index]? = some line ∧ ¬ IsEntryLine line ∧
        transform ignore path text renamer =
          .error (.widener path (.badEntry (index + 1) cause)) := by
  refine ⟨⟨?_, ?_⟩, fun output taken => ?_, fun headed => transform_or_refused headed ignore path⟩
  · rintro ⟨output, taken⟩
    obtain ⟨headed⟩ := headed_of_transform taken
    exact ⟨headed, (transform_ok_iff headed ignore path).mp ⟨output, taken⟩⟩
  · rintro ⟨headed, entries⟩
    exact (transform_ok_iff headed ignore path).mpr entries
  · obtain ⟨headed⟩ := headed_of_transform taken
    obtain ⟨kept, ends, written, entries⟩ := output_of_headed wordly headed taken
    refine ⟨fun next same ignore path => ?_, kept.length_eq.symm, kept, ends⟩
    obtain ⟨written, entries⟩ : ∃ written : Headed next.table.source (Text.lines output.toList),
        ∀ line ∈ written.rest, IsEntryLine line := same ▸ ⟨written, entries⟩
    exact (transform_ok_iff written ignore path).mpr entries

def wideningRenamer : Renamer :=
  ⟨⟨"a", "b", [("C", ⟨"d/D", [⟨"f", "LC;", "g"⟩], []⟩)]⟩, .ofNodes []⟩

def widening : String := "# first\r\r\naccessWidener v2 a # head\r\n\nmutable field C f LC;\t#own"

def widened : String :=
  "# first\r\naccessWidener\tv2\tb\t# head\n\nmutable\tfield\td/D\tg\tLd/D;\t#own"

/-- A file with no entry in its third line. -/
def opening : String := "accessWidener v1 a\n\nopen C\n"

def headedOpening : Headed "a" (Text.lines opening.toList) where
  quiet := []
  header := "accessWidener v1 a".toList
  rest := ["".toList, "open C".toList]
  version := "v1"
  comment := none
  whole := by decide +kernel
  silent := nofun
  parts := by decide
  numbered := .inl rfl

theorem widener_survives_widening :
    wideningRenamer.table.Wordly ∧
    transform false "c.aw" widening wideningRenamer = .ok (widened, []) ∧
    (∀ next : Renamer, next.table.source = "b" → ∀ ignore path,
      ∃ again, transform ignore path widened next = .ok (again, [])) ∧
    List.Forall₂ Kept (Text.lines widening.toList) (Text.lines widened.toList) ∧
    transform false "c.aw" opening wideningRenamer =
      .error (.widener "c.aw" (.badEntry 3 (.unknownAccess "open"))) ∧
    ∃ line, (Text.lines opening.toList)[2]? = some line ∧ ¬ IsEntryLine line := by
  have wordly : wideningRenamer.table.Wordly := .of_all (by decide) (by decide)
  have output : transform false "c.aw" widening wideningRenamer = .ok (widened, []) := by
    decide +kernel
  have refused : transform false "c.aw" opening wideningRenamer =
      .error (.widener "c.aw" (.badEntry 3 (.unknownAccess "open"))) := by
    decide +kernel
  obtain ⟨later, -, kept, -⟩ := (widener_survives wordly false "c.aw" widening).2.1 widened output
  refine ⟨wordly, output, later, kept, refused, ?_⟩
  rcases (widener_survives wordly false "c.aw" opening).2.2 headedOpening with
    ⟨_, taken⟩ | ⟨index, line, cause, -, there, none, named⟩
  · cases refused.symm.trans taken
  · cases refused.symm.trans named
    exact ⟨line, there, none⟩

end Widener

end ArchiveRemap
