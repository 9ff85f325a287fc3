import SchemaLedger.Proofs.Script.Carried
import SchemaLedger.Proofs.Sql.Delimited

/-!
# The delimiters of a script

A script is one anonymous block, a dollar quotation from its first line to its last.
Nothing keeps the delimiter out of bodies and of names of files.  The quotation is
the whole block exactly when the delimiter stands in the script twice, and it does
not stand there more often if it is in none of these.
-/

namespace SchemaLedger
namespace Script

open Artifact (IsListed StandsOn)
open Text (eachLine eachLine_cons)
open Sql (delimiter tokens)
open Text (occurrences)

variable {s : Script} {f : Fragment} {tag : Text} {minify : Bool}

/-! ## Between the delimiters -/

/-- What stands between the delimiters of a script. -/
def quoted (s : Script) (minify : Bool) : Text :=
  " BEGIN\n".text ++ eachLine (kept s.inside minify) ++ "END ".text

theorem render_eq_quoted (htag : Text.Unbroken s.tag) (minify : Bool) :
    s.render minify = "DO ".text ++ delimiter s.tag ++ s.quoted minify ++ delimiter s.tag ++
      ";\n".text := by
  rw [render_eq htag]
  unfold header footer quoted
  simp [delimiter, String.text]

theorem infix_eachLine_iff {part : Text} (hne : part ≠ []) (hbreak : .char '\n' ∉ part)
    (lines : List Text) : part <:+: eachLine lines ↔ ∃ line ∈ lines, part <:+: line := by
  induction lines with
  | nil => simpa [eachLine] using hne
  | cons line rest ih =>
    rw [eachLine_cons, Text.infix_append_separator_iff hne hbreak, ih]
    simp

theorem notMem_delimiter : ∀ tag ∈ tags,
    ∀ c ∈ [CodePoint.char ' ', .char ';', .char '\n', .char '\'', .char '%'],
      c ∉ delimiter tag := by
  -- a statement about each of some characters may be decided over all characters
  have hall : ∀ tag ∈ tags, [CodePoint.char ' ', .char ';', .char '\n', .char '\'', .char '%'].all
      (· ∉ delimiter tag) = true := by decide
  exact fun tag htag c hc => of_decide_eq_true (List.all_eq_true.1 (hall tag htag) c hc)

theorem delimiter_infix_quoted_iff (htag : s.tag ∈ tags) :
    delimiter s.tag <:+: s.quoted minify ↔
      ∃ line ∈ kept s.inside minify, delimiter s.tag <:+: line := by
  have hbreak : .char '\n' ∉ delimiter s.tag := notMem_delimiter s.tag htag _ (by decide)
  unfold quoted
  rw [Sql.delimiter_infix_append_right_iff (by decide),
    Sql.delimiter_infix_append_left_iff (by decide),
    infix_eachLine_iff (Sql.delimiter_ne_nil _) hbreak]

/-- Two delimiters stand around what is quoted. -/
theorem occurrences_render (htag : s.tag ∈ tags) :
    occurrences (delimiter s.tag) (s.render minify) =
      2 + occurrences (delimiter s.tag) (s.quoted minify) := by
  have hne := Sql.delimiter_ne_nil s.tag
  have hspace : .char ' ' ∉ delimiter s.tag := notMem_delimiter s.tag htag _ (by decide)
  have hend : .char ';' ∉ delimiter s.tag := notMem_delimiter s.tag htag _ (by decide)
  have hnone : ∀ t : Text, .char '$' ∉ t → occurrences (delimiter s.tag) t = 0 := fun t ht =>
    Text.occurrences_eq_zero.2 fun hinside => ht (Sql.dollar_mem hinside)
  obtain ⟨inner, hquoted⟩ :
      ∃ inner, s.quoted minify = [] ++ .char ' ' :: (inner ++ .char ' ' :: []) :=
    ⟨"BEGIN\n".text ++ eachLine (kept s.inside minify) ++ "END".text, by
      unfold quoted
      simp [String.text]⟩
  have hrender : s.render minify = "DO".text ++ .char ' ' :: (delimiter s.tag ++ .char ' ' ::
      (inner ++ .char ' ' :: (delimiter s.tag ++ .char ';' :: "\n".text))) := by
    rw [render_eq_quoted (unbroken_of_mem_tags htag), hquoted]
    simp [String.text]
  rw [hrender, hquoted]
  simp only [Text.occurrences_append_separator hne hspace,
    Text.occurrences_append_separator hne hend, Text.occurrences_self hne]
  rw [hnone "DO".text (by decide), hnone [] (by decide), hnone "\n".text (by decide)]
  omega

/-! ## Reading a script -/

theorem read_opening : ∀ tag ∈ tags,
    Sql.read ("DO ".text ++ delimiter tag) = ⟨[.run "DO".text], .dollarQuoted tag []⟩ := by
  decide +kernel

/-- What begins in a quotation and ends with a blank is one constant exactly when the
delimiter is no part of it. -/
theorem ended_delimited_iff {front inner : Text} (hinner : inner = front ++ [.char ' '])
    (hspace : .char ' ' ∉ delimiter tag) :
    (((⟨[.run "DO".text], .dollarQuoted tag []⟩ : Sql.Reading).run
        (inner ++ delimiter tag)).run ";\n".text).ended =
      [.run "DO".text, .constant inner, .run ";".text] ↔ ¬delimiter tag <:+: inner := by
  constructor
  · intro htokens hinside
    have hopen : ¬delimiter tag <:+: [] := by simp [delimiter]
    obtain ⟨content, more, hsplit, hrun⟩ := Sql.Reading.exists_run_eq_of_infix hopen hinside
    have hmem : Sql.Token.constant content ∈
        [Sql.Token.run "DO".text, .constant inner, .run ";".text] := by
      rw [← htokens, Sql.Reading.run_append, hrun]
      refine Sql.Reading.tokens_subset_ended _ (Sql.Reading.tokens_subset_run _ _
        (Sql.Reading.tokens_subset_run _ _ (Sql.Reading.tokens_subset_run _ _ ?_)))
      exact List.mem_append_right _ List.mem_cons_self
    obtain rfl : content = inner := by simpa using hmem
    have hlength := congrArg List.length hsplit
    simp only [List.nil_append, List.length_append, delimiter, List.length_cons] at hlength
    omega
  · intro hopen
    rw [hinner] at hopen ⊢
    rw [Sql.Reading.run_delimited hspace hopen]
    rfl

theorem tokens_render_iff (htag : s.tag ∈ tags) :
    tokens (s.render minify) =
        [.run "DO".text, .constant (s.quoted minify), .run ";".text] ↔
      ¬delimiter s.tag <:+: s.quoted minify := by
  obtain ⟨front, hquoted⟩ : ∃ front, s.quoted minify = front ++ [.char ' '] :=
    ⟨" BEGIN\n".text ++ eachLine (kept s.inside minify) ++ "END".text, by
      unfold quoted
      simp [String.text]⟩
  have hspace : .char ' ' ∉ delimiter s.tag := notMem_delimiter s.tag htag _ (by decide)
  rw [← ended_delimited_iff hquoted hspace, render_eq_quoted (unbroken_of_mem_tags htag),
    List.append_assoc _ (s.quoted minify), tokens, Sql.read_append, Sql.read_append,
    read_opening s.tag htag]

/-! ## Where a delimiter can stand -/

/-- Names are said so that a delimiter stands in all that is said or nowhere. -/
theorem Spells.delimiter_infix_iff {name t : Text} (htag : tag ∈ tags)
    (h : Spells name t) : delimiter tag <:+: t ↔ delimiter tag <:+: name := by
  induction h with
  | self => exact Iff.rfl
  | behind hfront _ ih => rw [Sql.delimiter_infix_append_left_iff hfront.2.1, ih]
  | before _ hback ih => rw [Sql.delimiter_infix_append_right_iff hback.2.1, ih]
  | @doubled _ mark hmark _ ih =>
    have hmark : mark ∉ delimiter tag :=
      notMem_delimiter tag htag mark
        (List.mem_append_right [CodePoint.char ' ', .char ';', .char '\n'] hmark)
    rw [Sql.infix_doubled_iff hmark, ih]

/-- A delimiter is a part of one line and not blank. -/
theorem carried_delimiter (htag : tag ∈ tags) : Carried (delimiter tag <:+: ·) where
  lines _ := by
    have hpart : ∀ tag ∈ tags, Text.Unbroken (delimiter tag) ∧
        Text.isBlankText (delimiter tag) = false := by decide
    exact infix_iff_exists_shown (hpart tag htag).1 (hpart tag htag).2
  spells h := h.delimiter_infix_iff htag
  frame part hpart hinside := by
    have hdollar : ∀ part ∈ Fragment.frame, .char '$' ∉ part := by decide
    exact hdollar part hpart (Sql.dollar_mem hinside)
  fixed f hf body hbody hinside :=
    (ordinary_of_fixed f hf body hbody).1 (Sql.dollar_mem hinside)

variable {d : Disk} {root path : Path} {variant : Variant}

/-- The delimiter of a script stands in no name and no body of what it is made of. -/
def Undelimited (d : Disk) (root : Path) (s : Script) : Prop :=
  ∀ f ∈ s.fragments, ∀ path, MadeFor d root path f →
    ¬delimiter s.tag <:+: path.stem ∧ ∀ body ∈ f.bodies, ¬delimiter s.tag <:+: body

theorem undelimited_iff (h : ofTree d root variant = .ok s) :
    Undelimited d root s ↔ ∀ line ∈ kept s.inside false, ¬delimiter s.tag <:+: line := by
  have hlines := not_congr ((carried_delimiter (tag_of_tree h)).exists_kept_iff h)
  simp only [not_exists, not_and, not_or] at hlines
  rw [hlines]
  rfl

/-- Where no name and no text in the tree has the delimiter, no script is made of one
that has it. -/
theorem undelimited_of_entries
    (hnames : ∀ name above entry, (name :: above, entry) ∈ d.tree.entries →
      ¬delimiter s.tag <:+: name.text)
    (hbodies : ∀ place data, (place, Entry.file data) ∈ d.tree.entries →
      ∀ body, Utf8.decode data = .ok body → ¬delimiter s.tag <:+: body) :
    Undelimited d root s := by
  intro f _ path hmade
  refine ⟨fun hstem => ?_, fun body hbody => ?_⟩
  · have hname : delimiter s.tag <:+: path.name := by
      rw [← Text.splitSuffix_append path.name]
      exact hstem.trans (List.prefix_append _ _).isInfix
    rcases hmade.name_cases with hbootstrap | ⟨name, above, entry, hsame, hentry⟩
    · have hdollar : .char '$' ∉ Layout.bootstrap := by decide
      exact hdollar (hbootstrap ▸ Sql.dollar_mem hname)
    · exact hnames name above entry hentry (hsame ▸ hname)
  · obtain ⟨file, _, ⟨data, hread, _, hdecode, _⟩, rfl⟩ := hmade.mem_bodies hbody
    obtain ⟨place, _, hfile⟩ := Disk.find_eq_ok.1 (Disk.read_eq_ok.1 hread)
    have hne : place ≠ [] := by
      rintro rfl
      cases hfile
    exact hbodies place data (Tree.mem_of_at? hne hfile) _ hdecode

/-- A script is a quotation between two delimiters, in its first line and in its last.
They are the only ones exactly when the quotation is read as one constant, and exactly
when no line between them has a delimiter.  In a tree without delimiters in names and
bodies they are, whether the script is minified or not; in another only a minified
script can be without more. -/
theorem delimiters_of_build {t : Text} (h : build d root variant minify = .ok t) :
    ∃ s inner, ofTree d root variant = .ok s ∧ s.tag ∈ tags ∧
      t = "DO ".text ++ delimiter s.tag ++ inner ++ delimiter s.tag ++ ";\n".text ∧
      Text.splitOn '\n' t = s.header :: kept s.inside minify ++ [s.footer, []] ∧
      (occurrences (delimiter s.tag) t = 2 ↔
        tokens t = [.run "DO".text, .constant inner, .run ";".text]) ∧
      (occurrences (delimiter s.tag) t = 2 ↔
        ∀ line ∈ kept s.inside minify, ¬delimiter s.tag <:+: line) ∧
      (Undelimited d root s → occurrences (delimiter s.tag) t = 2) ∧
      (minify = false → occurrences (delimiter s.tag) t = 2 → Undelimited d root s) := by
  obtain ⟨s, hs, rfl⟩ := build_eq_ok.1 h
  have htag := tag_of_tree hs
  have hunbroken := unbroken_tag_of_tree hs
  have htwo : occurrences (delimiter s.tag) (s.render minify) = 2 ↔
      ¬delimiter s.tag <:+: s.quoted minify := by
    rw [occurrences_render htag, ← Text.occurrences_eq_zero]
    omega
  have hlines : occurrences (delimiter s.tag) (s.render minify) = 2 ↔
      ∀ line ∈ kept s.inside minify, ¬delimiter s.tag <:+: line := by
    rw [htwo, delimiter_infix_quoted_iff htag]
    simp only [not_exists, not_and]
  refine ⟨s, s.quoted minify, hs, htag, render_eq_quoted hunbroken minify,
    splitOn_render hunbroken minify, ?_, hlines, ?_, ?_⟩
  · rw [htwo, tokens_render_iff htag]
  · intro hclean
    rw [hlines]
    exact fun line hline => (undelimited_iff hs).1 hclean line (kept_subset_shown _ _ hline)
  · rintro rfl hoccurrences
    exact (undelimited_iff hs).2 (hlines.1 hoccurrences)

theorem delimiters_of_build_separated :
    ∃ t s inner, build ⟨separatedTree, []⟩ databaseRoot .applying false = .ok t ∧
      ofTree ⟨separatedTree, []⟩ databaseRoot .applying = .ok s ∧
      occurrences (delimiter s.tag) t = 2 ∧
      tokens t = [.run "DO".text, .constant inner, .run ";".text] := by
  obtain ⟨t, ht⟩ := exists_build_separated
  obtain ⟨s, inner, hs, _, _, _, htokens, _, hclean, _⟩ := delimiters_of_build ht
  have hdollar : ∀ {u : Text}, .char '$' ∉ u → ¬delimiter s.tag <:+: u := fun hu hinside =>
    hu (Sql.dollar_mem hinside)
  have hundelimited : Undelimited ⟨separatedTree, []⟩ databaseRoot s := by
    refine undelimited_of_entries (fun name above entry hentry => ?_)
      fun place data hfile body hbody => ?_
    · have hnames : ∀ place ∈ separatedEntries.map (·.1), ∀ name ∈ place,
          .char '$' ∉ name.text := by decide +kernel
      exact hdollar (hnames _ (List.mem_map_of_mem hentry) name List.mem_cons_self)
    · have hdata : data = Utf8.encode "CREATE FUNCTION f()\n\n  RETURNS int;\n".text ∨
          data = Utf8.encode separatedBody := by
        simp only [separatedTree, separatedEntries, List.mem_cons, List.not_mem_nil, or_false,
          Prod.mk.injEq, Entry.file.injEq, reduceCtorEq, and_false, false_or] at hfile
        exact hfile.imp And.right And.right
      rcases hdata with rfl | rfl
      · rw [Utf8.decode_encode_text] at hbody
        exact hdollar (Except.ok.inj hbody ▸ by decide)
      · rw [separatedBody, Utf8.decode_encode_text] at hbody
        exact hdollar (Except.ok.inj hbody ▸ by decide)
  exact ⟨t, s, inner, ht, hs, hclean hundelimited, htokens.1 (hclean hundelimited)⟩

/-! ## A body with the delimiter -/

def quotedBody : Text :=
  "CREATE FUNCTION f() RETURNS int AS $pgm$\nSELECT 1\n$pgm$ LANGUAGE sql;\n".text

def quotedEntries : List (Location × Entry) :=
  [(["db".name], .folder),
   (["functions".name, "db".name], .folder),
   (["f.sql".name, "functions".name, "db".name], .file (Utf8.encode quotedBody))]

/-- A tree with one function, whose body is quoted as the script is. -/
def quotedTree : Tree where
  entries := quotedEntries
  distinct := by decide
  closed := by
    have h : ∀ place ∈ quotedEntries.map (·.1),
        place.tail = [] ∨ (place.tail, Entry.folder) ∈ quotedEntries := by decide
    exact fun name place hplace => h (name :: place) hplace

def quotedFile : SqlFile where
  path := (databaseRoot.child ObjectKind.function.folder).child "f.sql".text
  name := "f".text
  body := quotedBody
  digest := Md5.hexDigest (Utf8.encode quotedBody)

/-- The delimiter stands in the script more than twice, so the database does not read
the script as one block. -/
theorem delimiters_of_body :
    ∃ s inner, ofTree ⟨quotedTree, []⟩ databaseRoot .applying = .ok s ∧
      s.render false =
        "DO ".text ++ delimiter s.tag ++ inner ++ delimiter s.tag ++ ";\n".text ∧
      occurrences (delimiter s.tag) (s.render false) ≠ 2 ∧
      tokens (s.render false) ≠ [.run "DO".text, .constant inner, .run ";".text] := by
  obtain ⟨t, ht⟩ : ∃ t, build ⟨quotedTree, []⟩ databaseRoot .applying false = .ok t :=
    Outcome.exists_of_toBool (by decide +kernel)
  obtain ⟨s, hs, -⟩ := build_eq_ok.1 ht
  have htag := tag_of_tree hs
  have hquoted : delimiter s.tag <:+: s.quoted false := by
    have hlisted : IsListed ⟨quotedTree, []⟩ (databaseRoot.child ObjectKind.function.folder)
        quotedFile.path := ⟨by decide, _, rfl, "f.sql".text, by decide, rfl⟩
    have hstands : StandsOn ⟨quotedTree, []⟩ quotedFile :=
      ⟨Utf8.encode quotedBody, rfl, by decide, Utf8.decode_encode_text _, by rw [quotedFile]⟩
    have hfragment := mem_fragments_of_listed hs hlisted hstands (true, .functionsChecked)
      (by decide)
    have hbody : quotedBody ∈ (objectFragment .functionsChecked ObjectKind.function.table
        ObjectKind.function.folder true quotedFile).bodies := List.mem_singleton_self _
    have hinside : delimiter s.tag <:+: quotedBody := by
      obtain ⟨c, -, rfl⟩ := Contents.exists_of_assemble hs
      show delimiter schemaTag <:+: quotedBody
      decide +kernel
    obtain ⟨line, hline, hdelimiter⟩ := ((carried_delimiter htag).exists_line_iff _).2
      (.inr ⟨_, hbody, hinside⟩)
    rw [delimiter_infix_quoted_iff htag]
    exact ⟨line, mem_kept_of_fragment hfragment hline, hdelimiter⟩
  refine ⟨s, s.quoted false, hs, render_eq_quoted (unbroken_tag_of_tree hs) false, ?_, ?_⟩
  · rw [occurrences_render htag]
    have hnone := Text.occurrences_eq_zero.not_left.2 hquoted
    omega
  · rw [Ne, tokens_render_iff htag, not_not]
    exact hquoted

end Script
end SchemaLedger
