import SchemaLedger.Proofs.Artifact.Added

/-!
# The next number in a folder

The next name is made from the decimal numbers that name files of SQL in a
folder, and from nothing else in it.  What is in its way is a folder that cannot
be looked at, and a file named by digits that make no decimal number.
-/

namespace SchemaLedger
namespace Text

theorem isDigit_of_mapM {t : Text} {digits : List Nat} (h : t.mapM decimalValue? = some digits) :
    ∀ c ∈ t, isDigit c = true := by
  induction t generalizing digits with
  | nil => exact nofun
  | cons c rest ih =>
    rw [List.mapM_cons] at h
    obtain ⟨value, hvalue, h⟩ := Option.bind_eq_some_iff.1 h
    obtain ⟨more, hmore, _⟩ := Option.bind_eq_some_iff.1 h
    refine List.forall_mem_cons.2 ⟨?_, ih hmore⟩
    rw [SchemaLedger.isDigit, isDecimalDigit, hvalue]
    rfl

/-- What can be read as a number is digits. -/
theorem isDigits_of_decimal? {t : Text} {n : Nat} (h : decimal? t = some n) :
    isDigits t = true := by
  unfold decimal? at h
  split at h
  · cases h
  · next hne =>
    obtain ⟨digits, hdigits, _⟩ := Option.map_eq_some_iff.1 h
    simp only [isDigits, hne, Bool.not_false, Bool.true_and, List.all_eq_true]
    exact isDigit_of_mapM hdigits

end Text

namespace Artifact

variable {d : Disk} {folder path : Path} {name : Text} {n : Nat} {paths : List Path}

theorem numberOf_eq_some_iff :
    numberOf path = .ok (some n) ↔ Text.decimal? path.stem = some n := by
  unfold numberOf
  constructor
  · intro h
    split at h
    · cases hnumber : Text.decimal? path.stem with
      | none =>
        rw [hnumber] at h
        cases h
      | some m =>
        rw [hnumber] at h
        exact Except.ok.inj h
    · cases h
  · intro h
    rw [if_pos (Text.isDigits_of_decimal? h), h]

theorem exists_numberOf_iff : (∃ number, numberOf path = .ok number) ↔
    (Text.isDigits path.stem = true → ∃ n, Text.decimal? path.stem = some n) := by
  unfold numberOf
  split
  · next hdigits =>
    cases hnumber : Text.decimal? path.stem with
    | none => exact ⟨nofun, fun h => nomatch h hdigits⟩
    | some n => exact ⟨fun _ _ => ⟨n, rfl⟩, fun _ => ⟨some n, rfl⟩⟩
  · next hdigits => exact ⟨fun _ h => absurd h hdigits, fun _ => ⟨none, rfl⟩⟩

/-! ## What is in the folder -/

/-- A file of SQL of the folder has the stem. -/
def HasStem (d : Disk) (folder : Path) (stem : Text) : Prop :=
  ∃ name : Name, d.isFile (folder.child name.text) = .ok true ∧
    (folder.child name.text).suffix = Layout.suffix ∧ (folder.child name.text).stem = stem

/-- The number names a file of SQL of the folder. -/
def Numbered (d : Disk) (folder : Path) (n : Nat) : Prop :=
  ∃ stem, HasStem d folder stem ∧ Text.decimal? stem = some n

/-- The folder is none, or its names can be had and all that they name can be looked
at. -/
def Visible (d : Disk) (folder : Path) : Prop :=
  d.isFolder folder = .ok false ∨ ∃ names, d.list folder = .ok names ∧
    ∀ name ∈ names, ∃ isFile, d.isFile (folder.child name) = .ok isFile

/-- Nothing in the folder keeps its files from being numbered. -/
structure Numberable (d : Disk) (folder : Path) : Prop where
  visible : Visible d folder
  decimal : ∀ stem, HasStem d folder stem → Text.isDigits stem = true →
    ∃ n, Text.decimal? stem = some n

/-- The name of the file behind the highest of some numbers. -/
def IsNext (numbers : Nat → Prop) (name : Text) : Prop :=
  ∃ highest, name = Layout.fileName (numeral (highest + 1)) ∧
    (∀ n, numbers n → n ≤ highest) ∧ (highest = 0 ∨ numbers highest)

theorem IsNext.eq {numbers others : Nat → Prop} (hsame : ∀ n, numbers n ↔ others n)
    {a b : Text} (ha : IsNext numbers a) (hb : IsNext others b) : a = b := by
  obtain ⟨m, rfl, hm, hattained⟩ := ha
  obtain ⟨n, rfl, hn, hattained'⟩ := hb
  have hle : m ≤ n := hattained.elim (fun hzero => hzero ▸ Nat.zero_le n) fun h =>
    hn m ((hsame m).1 h)
  have hge : n ≤ m := hattained'.elim (fun hzero => hzero ▸ Nat.zero_le m) fun h =>
    hm n ((hsame n).2 h)
  rw [Nat.le_antisymm hle hge]

theorem exists_path_iff (hlist : list d folder = .ok paths) (holds : Text → Prop) :
    (∃ path ∈ paths, holds path.stem) ↔ ∃ stem, HasStem d folder stem ∧ holds stem := by
  constructor
  · rintro ⟨path, hpath, h⟩
    obtain ⟨name, rfl, hsuffix, hfile⟩ := (mem_list_iff hlist).1 hpath
    exact ⟨_, ⟨name, hfile, hsuffix, rfl⟩, h⟩
  · rintro ⟨_, ⟨name, hfile, hsuffix, rfl⟩, h⟩
    exact ⟨_, (mem_list_iff hlist).2 ⟨name, rfl, hsuffix, hfile⟩, h⟩

theorem numbered_iff (hlist : list d folder = .ok paths) :
    Numbered d folder n ↔ ∃ path ∈ paths, numberOf path = .ok (some n) := by
  simp only [numberOf_eq_some_iff]
  exact (exists_path_iff hlist (Text.decimal? · = some n)).symm

/-! ## The next name -/

theorem exists_nextName_iff :
    (∃ name, nextName d folder = .ok name) ↔ Numberable d folder := by
  have hvisible : Visible d folder ↔ ∃ paths, list d folder = .ok paths := exists_list_iff.symm
  constructor
  · rintro ⟨name, h⟩
    obtain ⟨paths, hlist, h⟩ := Outcome.bind_eq_ok.1 h
    obtain ⟨numbers, hnumbers, _⟩ := Outcome.bind_eq_ok.1 h
    refine ⟨hvisible.2 ⟨paths, hlist⟩, ?_⟩
    rintro _ ⟨name, hfile, hsuffix, rfl⟩
    have hmem := (mem_list_iff hlist).2 ⟨name, rfl, hsuffix, hfile⟩
    exact exists_numberOf_iff.1 (Outcome.exists_of_mapM hnumbers hmem)
  · rintro ⟨hsee, hdecimal⟩
    obtain ⟨paths, hlist⟩ := hvisible.1 hsee
    have hnumbers : ∀ path ∈ paths, ∃ number, numberOf path = .ok number := by
      intro path hpath
      obtain ⟨name, rfl, hsuffix, hfile⟩ := (mem_list_iff hlist).1 hpath
      exact exists_numberOf_iff.2 (hdecimal _ ⟨name, hfile, hsuffix, rfl⟩)
    obtain ⟨numbers, hnumbers⟩ := Outcome.exists_mapM hnumbers
    rw [nextName, Outcome.bind_of_ok hlist, Outcome.bind_of_ok hnumbers]
    exact ⟨_, rfl⟩

theorem isNext_of_nextName (h : nextName d folder = .ok name) :
    IsNext (Numbered d folder) name := by
  obtain ⟨paths, highest, hcounted, rfl⟩ := exists_counted_of_nextName h
  refine ⟨highest, rfl, fun n hn => ?_, ?_⟩
  · obtain ⟨path, hpath, hnumber⟩ := (numbered_iff hcounted.listed).1 hn
    exact hcounted.bound path hpath n hnumber
  · exact hcounted.attained.imp_right (numbered_iff hcounted.listed).2

/-- There is a next name exactly when everything in the folder can be looked at
and no digits stand for a number that cannot be read.  It is the one behind the
highest number in the folder, and files without a number have no part in it. -/
theorem nextName_of_numbers (d : Disk) (folder : Path) :
    ((∃ name, nextName d folder = .ok name) ↔ Numberable d folder) ∧
      (∀ name, nextName d folder = .ok name → IsNext (Numbered d folder) name) ∧
      ∀ e other, Numberable d folder → Numberable e other →
        (∀ n, Numbered d folder n ↔ Numbered e other n) →
        nextName d folder = nextName e other := by
  refine ⟨exists_nextName_iff, fun name => isNext_of_nextName, ?_⟩
  intro e other hfolder hother hsame
  obtain ⟨name, hname⟩ := exists_nextName_iff.2 hfolder
  obtain ⟨name', hname'⟩ := exists_nextName_iff.2 hother
  rw [hname, hname', (isNext_of_nextName hname).eq hsame (isNext_of_nextName hname')]

/-- The folder of migrations below the working folder. -/
def workingMigrations : Path := workingPath.child Layout.migrations

/-- A folder with a file that is not numbered and one that is numbered seven with
a digit of another script. -/
def diskOfArabicDigit : Disk where
  tree :=
    { entries := [(["migrations".name], .folder),
        (["x.sql".name, "migrations".name], .file []),
        (["\u0667.sql".name, "migrations".name], .file [])]
      distinct := by decide
      closed := fun other place hplace => by
        simp only [List.map_cons, List.map_nil, List.mem_cons, List.cons.injEq, List.not_mem_nil,
          or_false] at hplace
        rcases hplace with ⟨_, rfl⟩ | ⟨_, rfl⟩ | ⟨_, rfl⟩
        · exact .inl rfl
        · exact .inr List.mem_cons_self
        · exact .inr List.mem_cons_self }
  working := []

theorem list_arabicDigit : list diskOfArabicDigit workingMigrations =
    .ok [workingMigration "x.sql", workingMigration "\u0667.sql"] := by
  refine list_eq_ok.2 (.inr ⟨["x.sql".text, "\u0667.sql".text],
    [workingMigration "x.sql", workingMigration "\u0667.sql"], by decide +kernel,
    by decide +kernel, ?_⟩)
  have horder : Text.atMost (workingMigration "x.sql").name (workingMigration "\u0667.sql").name =
      true := by
    decide
  simp [List.mergeSort, List.MergeSort.Internal.splitInTwo, horder]

theorem nextName_of_numbers_arabicDigit :
    nextName diskOfSeven workingMigrations = .ok "00008.sql".text ∧
      nextName diskOfArabicDigit workingMigrations = .ok "00008.sql".text := by
  obtain ⟨hexists, _, hinfluence⟩ := nextName_of_numbers diskOfSeven workingMigrations
  have hnext : nextName diskOfSeven workingMigrations = .ok "00008.sql".text := by
    decide +kernel
  have hlist : list diskOfSeven workingMigrations = .ok [workingMigration "00007.sql"] := by
    decide +kernel
  have hnextEastern : ∃ name, nextName diskOfArabicDigit workingMigrations = .ok name := by
    rw [nextName, list_arabicDigit]
    exact ⟨_, rfl⟩
  have hsame : ∀ n, Numbered diskOfSeven workingMigrations n ↔
      Numbered diskOfArabicDigit workingMigrations n := by
    intro n
    have hx : Text.decimal? (workingMigration "x.sql").stem = none := by decide
    have hseven : Text.decimal? (workingMigration "00007.sql").stem = some 7 := by decide
    have harabic : Text.decimal? (workingMigration "\u0667.sql").stem = some 7 := by decide
    rw [numbered_iff hlist, numbered_iff list_arabicDigit]
    simp [numberOf_eq_some_iff, hx, hseven, harabic]
  have hnumberable := (nextName_of_numbers diskOfArabicDigit workingMigrations).1.1 hnextEastern
  have heq := hinfluence diskOfArabicDigit workingMigrations (hexists.1 ⟨_, hnext⟩)
    hnumberable hsame
  exact ⟨hnext, heq.symm.trans hnext⟩

/-- A folder with one migration, which is named by a digit that is not decimal. -/
def diskOfSuperscript : Disk := onlyMigration "\u00b2.sql".name

/-- There is no number in the folder, and yet no next one. -/
theorem not_exists_nextName_superscript :
    IsNext (Numbered diskOfSuperscript workingMigrations) "00001.sql".text ∧
      nextName diskOfSuperscript workingMigrations =
        .error (.fault (.scalar (.notWhole 10 "\u00b2".text))) := by
  have hlist : list diskOfSuperscript workingMigrations = .ok [workingMigration "\u00b2.sql"] := by
    decide +kernel
  have hnone : ∀ n, ¬ Numbered diskOfSuperscript workingMigrations n := by
    intro n
    have hsuperscript : Text.decimal? (workingMigration "\u00b2.sql").stem = none := by decide
    rw [numbered_iff hlist]
    simp [numberOf_eq_some_iff, hsuperscript]
  exact ⟨⟨0, by decide, fun n hn => absurd hn (hnone n), .inl rfl⟩, by decide +kernel⟩

end Artifact
end SchemaLedger
