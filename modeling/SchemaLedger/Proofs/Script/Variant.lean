import SchemaLedger.Proofs.Script.Minified
import SchemaLedger.Proofs.Script.Recording
import SchemaLedger.Proofs.Script.Unmarked

/-!
# The lines of a script

A script consists of fragments that are the same for every tree and of fragments
made for an artifact.  What these say spells out the name of the file, so no name
that is one line adds a line to the script, and every other name does.
-/

namespace SchemaLedger
namespace Script

open Artifact (IsListed StandsOn)

variable {name message : Text} {d : Disk} {root path : Path} {f : Fragment} {s : Script}

/-! ## The fragments of a script -/

/-- The prelude of the script that runs the seeds. -/
def seedOpening : Fragment :=
  { stage := .prelude, body := .plain "SET LOCAL client_min_messages = notice;".text }

/-- The fragments that do not depend on the tree. -/
def fixed : List Fragment :=
  [Contents.opening, Contents.tables, Contents.check, seedOpening]

theorem assembleSeeds_eq_ok (h : assembleSeeds d root = .ok s) :
    ∃ files, Artifact.readAll d (root.child Layout.seeds) = .ok files ∧
      s = ⟨seedTag, seedOpening :: files.map seedFragment⟩ := by
  obtain ⟨_, _, h⟩ := Outcome.bind_eq_ok.1 h
  obtain ⟨there, _, h⟩ := Outcome.bind_eq_ok.1 h
  split at h
  · obtain ⟨files, hfiles, h⟩ := Outcome.bind_eq_ok.1 h
    exact ⟨files, hfiles, (Outcome.pure_eq_ok.1 h).symm⟩
  · cases h

theorem madeFor_of_contents {c : Contents} (hc : c.OfTree d root) (hf : f ∈ c.fragments) :
    f ∈ fixed ∨ ∃ path, MadeFor d root path f := by
  rcases Contents.fragment_cases hf with hfixed | ⟨file, hfile⟩
  · exact .inl (List.mem_append_left [seedOpening] hfixed)
  · exact .inr ⟨file.path, hfile.madeFor hc⟩

theorem madeFor_of_recording (h : assembleRecording d root = .ok s) (hf : f ∈ s.fragments) :
    f ∈ fixed ∨ ∃ path, MadeFor d root path f := by
  obtain ⟨_, path?, bootstrap, paths, migrations, objects, hpath, hbootstrap, hpaths, hmigrations,
    hobjects, rfl⟩ := assembleRecording_eq_ok.1 h
  have hobject : ∀ {kind stage}, f ∈ (objects kind).map (recordedObject stage kind) →
      f ∈ fixed ∨ ∃ path, MadeFor d root path f := by
    intro kind stage hf
    obtain ⟨file, hfile, rfl⟩ := List.mem_map.1 hf
    obtain ⟨hlisted, hstands⟩ := (Artifact.mem_readAll (hobjects kind)).1 hfile
    exact .inr ⟨_, .recordedObject stage hlisted hstands⟩
  obtain ⟨part, hpart, hf⟩ := List.mem_flatMap.1 hf
  simp only [recordedParts, List.mem_cons, List.not_mem_nil, or_false] at hpart
  rcases hpart with rfl | rfl | rfl | rfl | rfl | rfl
  · exact .inl (List.mem_singleton.1 hf ▸ by simp [fixed])
  · obtain ⟨path, hmem, hmade⟩ := (Outcome.mem_of_mapM hbootstrap).1 hf
    obtain rfl := Contents.eq_bootstrapPath (Option.mem_toList.1 hmem ▸ hpath)
    exact .inr ⟨_, .recordedMigration (.inl rfl) hmade⟩
  · obtain ⟨path, hmem, hmade⟩ := (Outcome.mem_of_mapM hmigrations).1 hf
    exact .inr ⟨_, .recordedMigration (.inr ((Contents.mem_migrationPaths hpaths).1 hmem).1.1)
      hmade⟩
  · exact hobject hf
  · exact hobject hf
  · exact hobject hf

/-- Whatever the script, a fragment is the same for every tree or made for an
artifact. -/
theorem madeFor_of_tree {variant : Variant} (h : ofTree d root variant = .ok s)
    (hf : f ∈ s.fragments) : f ∈ fixed ∨ ∃ path, MadeFor d root path f := by
  cases variant with
  | applying =>
    obtain ⟨c, hread, rfl⟩ := Contents.exists_of_assemble h
    exact madeFor_of_contents hread.ofTree hf
  | recording => exact madeFor_of_recording h hf
  | seeding =>
    obtain ⟨files, hfiles, rfl⟩ := assembleSeeds_eq_ok h
    rcases List.mem_cons.1 hf with rfl | hf
    · exact .inl (by simp [fixed])
    · obtain ⟨file, hfile, rfl⟩ := List.mem_map.1 hf
      obtain ⟨hlisted, hstands⟩ := (Artifact.mem_readAll hfiles).1 hfile
      exact .inr ⟨_, .seed hlisted hstands⟩

/-- The tags of the scripts of a tree. -/
def tags : List Text :=
  [schemaTag, seedTag]

theorem unbroken_of_mem_tags : ∀ {tag}, tag ∈ tags → Text.Unbroken tag := by
  decide

theorem tag_of_tree {variant : Variant} (h : ofTree d root variant = .ok s) : s.tag ∈ tags := by
  cases variant with
  | applying =>
    obtain ⟨c, _, rfl⟩ := Contents.exists_of_assemble h
    exact List.mem_cons_self
  | recording =>
    obtain ⟨_, _, _, _, _, _, _, _, _, _, _, rfl⟩ := assembleRecording_eq_ok.1 h
    exact List.mem_cons_self
  | seeding =>
    obtain ⟨_, _, rfl⟩ := assembleSeeds_eq_ok h
    exact List.mem_cons_of_mem _ List.mem_cons_self

/-- The script that applies a tree has a fragment for each pass over each object. -/
theorem mem_fragments_of_listed (h : assemble d root = .ok s) {kind : ObjectKind} {file : SqlFile}
    (hlisted : IsListed d (root.child kind.folder) file.path) (hstands : StandsOn d file) :
    ∀ pass ∈ Ledger.passes kind,
      objectFragment pass.2 kind.table kind.folder pass.1 file ∈ s.fragments := by
  obtain ⟨c, hread, rfl⟩ := Contents.exists_of_assemble h
  have hfile := (hread.ofTree.objects kind file).2 ⟨hlisted, hstands⟩
  exact fun pass hpass =>
    Ledger.mem_fragments_of_fragmentsOf hfile (List.mem_map_of_mem hpass)

/-! ## Lines -/

theorem kept_inside (s : Script) :
    kept s.inside false = s.ordered.flatMap fun f => f.parts.flatMap shown := by
  show shown (Text.unlines (s.ordered.map Fragment.render)) = _
  rw [shown_unlines, List.flatMap_map]
  exact List.flatMap_congr fun f _ => shown_unlines f.parts

theorem mem_kept_of_fragment {line : Text} (hf : f ∈ s.fragments)
    (hline : line ∈ f.parts.flatMap shown) : line ∈ kept s.inside false := by
  rw [kept_inside]
  exact List.mem_flatMap.2 ⟨f, s.ordered_perm.mem_iff.2 hf, hline⟩

theorem splitOn_render (htag : Text.Unbroken s.tag) (minify : Bool) :
    Text.splitOn '\n' (s.render minify) =
      s.header :: kept s.inside minify ++ [s.footer, []] := by
  rw [render, splitOn_finish (by rw [kept_draft htag]; simp), kept_draft htag, List.append_assoc]
  rfl

theorem shown_frame : ∀ part ∈ Fragment.frame, shown part = [part] := by
  decide

/-- For a name that is one line, every line that is not of the body begins as lines of
a script do. -/
theorem MadeFor.mem_lines (h : MadeFor d root path f) (hname : Text.Unbroken path.stem)
    {line : Text} (hline : line ∈ f.parts.flatMap shown) :
    (∃ file : SqlFile, file.path = path ∧ StandsOn d file ∧ line ∈ shown file.body) ∨
      Opens line ∨ line ∈ Fragment.frame := by
  obtain ⟨part, hpart, hline⟩ := List.mem_flatMap.1 hline
  rcases Fragment.shown_of_mem_parts hpart with ⟨body, hbody, hshown⟩ | ⟨text, htext, hshown⟩ |
    hframe
  · obtain ⟨file, hpath, hstands, rfl⟩ := h.mem_bodies hbody
    exact .inl ⟨file, hpath, hstands, hshown ▸ hline⟩
  · have hsaid := h.tells.saidOf htext
    rw [hshown, hsaid.shown_eq_iff.2 hname] at hline
    exact .inr (.inl (List.mem_singleton.1 hline ▸ hsaid.opens))
  · rw [shown_frame part hframe] at hline
    exact .inr (.inr (List.mem_singleton.1 hline ▸ hframe))

theorem unbroken_tag_of_tree {variant : Variant} (h : ofTree d root variant = .ok s) :
    Text.Unbroken s.tag :=
  unbroken_of_mem_tags (tag_of_tree h)

/-- A script has its first and its last line and the lines of its fragments.  What a
fragment made for an artifact says is shown, and each text of it is one line exactly
when the name of the file is one.  Then every line that is not of the body begins in
one of five ways or belongs to the frame of a guard. -/
theorem lines_of_build {variant : Variant} {t : Text} (h : build d root variant false = .ok t) :
    ∃ s, ofTree d root variant = .ok s ∧
      Text.splitOn '\n' t =
        s.header :: (s.ordered.flatMap fun f => f.parts.flatMap shown) ++ [s.footer, []] ∧
      ∀ f ∈ s.ordered, f ∈ fixed ∨ ∃ path, MadeFor d root path f ∧
        (∀ text ∈ f.said, (∃ part ∈ f.parts, shown part = shown text) ∧
          (shown text = [text] ↔ Text.Unbroken path.stem)) ∧
        (Text.Unbroken path.stem → ∀ line ∈ f.parts.flatMap shown,
          (∃ file : SqlFile, file.path = path ∧ StandsOn d file ∧ line ∈ shown file.body) ∨
            Opens line ∨ line ∈ Fragment.frame) := by
  obtain ⟨s, hs, rfl⟩ := build_eq_ok.1 h
  refine ⟨s, hs, ?_, fun f hf => ?_⟩
  · rw [splitOn_render (unbroken_tag_of_tree hs), kept_inside]
  refine (madeFor_of_tree hs (s.ordered_perm.mem_iff.1 hf)).imp_right fun ⟨path, hmade⟩ => ?_
  refine ⟨path, hmade, fun text htext => ⟨Fragment.exists_part_of_said htext, ?_⟩,
    fun hname line => hmade.mem_lines hname⟩
  exact (hmade.tells.saidOf htext).shown_eq_iff

theorem lines_of_build_separated :
    ∃ t, build ⟨separatedTree, []⟩ databaseRoot .applying false = .ok t ∧
      ∃ s, ofTree ⟨separatedTree, []⟩ databaseRoot .applying = .ok s ∧
        Text.splitOn '\n' t =
          s.header :: (s.ordered.flatMap fun f => f.parts.flatMap shown) ++ [s.footer, []] ∧
        ∀ f ∈ s.ordered, f ∈ fixed ∨ ∃ path, MadeFor ⟨separatedTree, []⟩ databaseRoot path f ∧
          (∀ text ∈ f.said, (∃ part ∈ f.parts, shown part = shown text) ∧
            (shown text = [text] ↔ Text.Unbroken path.stem)) ∧
          (Text.Unbroken path.stem → ∀ line ∈ f.parts.flatMap shown,
            (∃ file : SqlFile, file.path = path ∧ StandsOn ⟨separatedTree, []⟩ file ∧
                line ∈ shown file.body) ∨
              Opens line ∨ line ∈ Fragment.frame) := by
  obtain ⟨t, ht⟩ := exists_build_separated
  exact ⟨t, ht, lines_of_build ht⟩

/-! ## A name of two lines -/

def brokenName : Text :=
  "f\nDROP TABLE t; --".text

def brokenEntries : List (Location × Entry) :=
  [(["db".name], .folder),
   (["functions".name, "db".name], .folder),
   ([.ofText (Layout.fileName brokenName), "functions".name, "db".name],
     .file (Utf8.encode "SELECT 1;\n".text))]

/-- A tree with one function, whose name goes on with a command. -/
def brokenTree : Tree where
  entries := brokenEntries
  distinct := by decide +kernel
  closed := by
    have h : ∀ place ∈ brokenEntries.map (·.1),
        place.tail = [] ∨ (place.tail, Entry.folder) ∈ brokenEntries := by decide +kernel
    exact fun name place hplace => h (name :: place) hplace

def brokenFile : SqlFile where
  path := (databaseRoot.child ObjectKind.function.folder).child (Layout.fileName brokenName)
  name := brokenName
  body := "SELECT 1;\n".text
  digest := Md5.hexDigest (Utf8.encode "SELECT 1;\n".text)

/-- The command stands in the script, though it is in no file and no fixed text. -/
theorem line_of_name :
    ∃ t, build ⟨brokenTree, []⟩ databaseRoot .applying false = .ok t ∧
      ∃ line ∈ Text.splitOn '\n' t, line = "DROP TABLE t; -- --".text ∧
        ¬Opens line ∧ line ∉ Fragment.frame ∧
        (∀ f ∈ fixed, line ∉ f.parts.flatMap shown) ∧
        ∀ place data, (place, Entry.file data) ∈ brokenTree.entries →
          ∀ body, Utf8.decode data = .ok body → line ∉ shown body := by
  obtain ⟨t, ht⟩ : ∃ t, build ⟨brokenTree, []⟩ databaseRoot .applying false = .ok t :=
    Outcome.exists_of_toBool (by decide +kernel)
  refine ⟨t, ht, _, ?_, rfl, by decide, by decide, ?_, ?_⟩
  · obtain ⟨s, hs, rfl⟩ := build_eq_ok.1 ht
    have hnames : Disk.list ⟨brokenTree, []⟩ (databaseRoot.child ObjectKind.function.folder) =
        .ok [Layout.fileName brokenName] := by decide +kernel
    have hlisted : IsListed ⟨brokenTree, []⟩ (databaseRoot.child ObjectKind.function.folder)
        brokenFile.path :=
      ⟨by decide, _, hnames, _, List.mem_singleton_self _, rfl⟩
    have hstands : StandsOn ⟨brokenTree, []⟩ brokenFile :=
      ⟨Utf8.encode "SELECT 1;\n".text, rfl, by decide, Utf8.decode_encode_text _, by
        rw [brokenFile]⟩
    have hfragment := mem_fragments_of_listed hs hlisted hstands (true, .functionsChecked)
      (by decide)
    have hmarker : Fragment.runMarker (sourceOf ObjectKind.function.folder brokenName) ∈
        (objectFragment .functionsChecked ObjectKind.function.table ObjectKind.function.folder true
          brokenFile).parts := List.mem_cons_self
    rw [splitOn_render (unbroken_tag_of_tree hs)]
    refine List.mem_append_left _ (List.mem_cons_of_mem _ (mem_kept_of_fragment hfragment ?_))
    exact List.mem_flatMap.2 ⟨_, hmarker, by decide +kernel⟩
  · have htables : "DROP TABLE t; -- --".text ∉ shown trackingTables := by
      -- the parts of the text are evaluated faster than the whole
      unfold trackingTables
      simp only [String.text_append]
      decide +kernel
    have hparts : Contents.tables.parts.flatMap shown = shown trackingTables := by
      show ([Text.dropEndWhile (· == .char '\n') trackingTables]).flatMap shown = _
      rw [List.flatMap_singleton, shown_dropEndWhile_newline]
    refine List.forall_mem_cons.2 ⟨by decide +kernel, List.forall_mem_cons.2 ⟨?_, ?_⟩⟩
    · rwa [hparts]
    · decide +kernel
  · intro place data hfile body hbody
    obtain ⟨_, hdata⟩ : place = _ ∧ data = Utf8.encode "SELECT 1;\n".text := by
      simpa [brokenTree, brokenEntries] using hfile
    rw [hdata, Utf8.decode_encode_text] at hbody
    obtain rfl := Except.ok.inj hbody
    decide +kernel

end Script
end SchemaLedger
