import Subplans.Files.Tree
import Subplans.Proofs.Effects
import Subplans.Proofs.Text

/-!
Files in memory, before and after one of them is written or removed.

A path leads to the same place in every tree (`path_of_follow`), so files at different places do not get in each
other's way.
-/

namespace Subplans.FileTree

variable {t t' : FileTree} {directory file other text text' p : String} {names : List String} {place : Place}

-- The path of a place from the root.
def Place.path : Place → String
  | .file path | .directory path | .vacant path => path

-- Where names lead to, if anywhere.
def target (directory : String) : List String → String
  | [] => directory
  | name :: rest =>
    if name == "" || name == "." then target directory rest
    else if name == ".." then target (parent directory) rest
    else target (directory ++ "/" ++ name) rest

theorem path_of_follow (h : t.follow directory names = .ok place) : place.path = target directory names := by
  fun_induction follow t directory names
  case case1 =>
    cases h
    rfl
  case case2 hskip ih => rw [target, if_pos hskip, ih h]
  case case3 hskip hup ih => rw [target, if_neg hskip, if_pos hup, ih h]
  case case4 hskip hup _ _ ih => rw [target, if_neg hskip, if_neg hup, ih h]
  case case5 hskip hup _ _ _ | case7 hskip hup _ _ _ =>
    cases h
    rw [target, if_neg hskip, if_neg hup]
    rfl
  case case6 | case8 => cases h

-- The names lead to a file, or to where there could be one.
def Leads (t : FileTree) (directory : String) (names : List String) (p : String) : Prop :=
  t.follow directory names = .ok (.file p) ∨ t.follow directory names = .ok (.vacant p)

-- In another tree with the same directories they do so as well.
theorem Leads.follow_eq (h : t.Leads directory names p) (hd : t'.directories = t.directories) :
    t'.follow directory names = .ok (if (t'.files.lookup p).isSome then .file p else .vacant p) := by
  unfold Leads at h
  fun_induction follow t directory names
  case case1 | case6 | case8 => simp at h
  case case2 hskip ih => rw [follow, if_pos hskip, ih h]
  case case3 hskip hup ih => rw [follow, if_neg hskip, if_pos hup, ih h]
  case case4 hskip hup _ hdir ih =>
    rw [follow, if_neg hskip, if_neg hup]
    dsimp only
    rw [hd, if_pos hdir, ih h]
  case case5 hskip hup path hdir _ | case7 hskip hup path hdir _ =>
    have hp : path = p := by simpa using h
    rw [follow, if_neg hskip, if_neg hup]
    dsimp only
    rw [hd, if_neg hdir, ← hp]
    cases (t'.files.lookup path).isSome <;> rfl

theorem Leads.congr (h : t.Leads directory names p) (hd : t'.directories = t.directories) :
    t'.Leads directory names p := by
  rw [Leads, h.follow_eq hd]
  cases (t'.files.lookup p).isSome
  case false => exact .inr rfl
  case true => exact .inl rfl

theorem Leads.target_eq (h : t.Leads directory names p) : p = target directory names := by
  rcases h with h | h
  case inl => exact path_of_follow h
  case inr => exact path_of_follow h

-- The place of a file.
def Stands (t : FileTree) (file p : String) : Prop :=
  t.Leads root (namesIn file) p

-- The place that a path leads to, if any.
def placeOf (file : String) : String :=
  target root (namesIn file)

-- A file of this name can stand in a directory.
def IsName (name : String) : Prop :=
  '/' ∉ name.toList ∧ name ∉ ["", ".", ".."]

theorem target_append {more : List String} :
    target directory (names ++ more) = target (target directory names) more := by
  fun_induction target directory names
  case case1 => rfl
  case case2 hskip ih => rw [List.cons_append, target, if_pos hskip, ih]
  case case3 hskip hup ih => rw [List.cons_append, target, if_neg hskip, if_pos hup, ih]
  case case4 hskip hup ih => rw [List.cons_append, target, if_neg hskip, if_neg hup, ih]

theorem placeOf_path {name : String} (h : IsName name) :
    placeOf (Files.path directory name) = placeOf directory ++ "/" ++ name := by
  have hhead : (name.toList.head? == some '/') = false := by
    refine beq_eq_false_iff_ne.mpr fun hslash => h.1 ?_
    exact List.mem_of_head? hslash
  have hnames : namesIn (directory ++ "/" ++ name) = namesIn directory ++ [name] := by
    simp [namesIn, Text.splitOn_eq, List.splitOn_append_cons_self, List.splitOn_eq_singleton h.1]
  have hproper : name ≠ "" ∧ name ≠ "." ∧ name ≠ ".." := by simpa using h.2
  rw [Files.path, hhead, if_neg (by simp), placeOf, hnames, target_append]
  simp [target, hproper, placeOf]

-- Different names in one directory are different files.
theorem eq_of_placeOf_path {a b : String} (ha : IsName a) (hb : IsName b)
    (h : placeOf (Files.path directory a) = placeOf (Files.path directory b)) : a = b := by
  rw [placeOf_path ha, placeOf_path hb] at h
  simpa using h

theorem locate_eq (h : t.Stands file p) :
    t.locate file = .ok (if (t.files.lookup p).isSome then .file p else .vacant p) :=
  h.follow_eq rfl

theorem stands_of_locate (h : t.locate file = .ok place) :
    t.Stands file place.path ∨ place = .directory place.path := by
  cases place
  case file => exact .inl (.inl h)
  case directory => exact .inr rfl
  case vacant => exact .inl (.inr h)

theorem read_of_stands (h : t.Stands file p) : t.read file = (t.files.lookup p).elim (.error .missing) .ok := by
  rw [read, locate_eq h]
  cases hp : t.files.lookup p <;> simp [hp, bind, Except.bind]

theorem read_eq_ok : t.read file = .ok text ↔ ∃ p, t.Stands file p ∧ t.files.lookup p = some text where
  mp h := by
    have ⟨place, hplace, hread⟩ := Outcome.bind_eq_ok.mp h
    rcases stands_of_locate hplace with hp | hp
    case inl =>
      refine ⟨_, hp, ?_⟩
      rw [read_of_stands hp] at h
      cases hlookup : t.files.lookup place.path
      case none => simp [hlookup] at h
      case some => simpa [hlookup] using h
    case inr =>
      rw [hp] at hread
      cases hread
  mpr := by
    rintro ⟨p, hp, htext⟩
    rw [read_of_stands hp, htext]
    rfl

theorem write_eq_ok : t.write file text = .ok t' ↔
    ∃ p, t.Stands file p ∧ t' = { t with files := Assoc.put p text t.files } where
  mp h := by
    have ⟨place, hplace, hwrite⟩ := Outcome.bind_eq_ok.mp h
    cases place
    case file p =>
      cases hwrite
      exact ⟨p, .inl hplace, rfl⟩
    case vacant p =>
      cases hwrite
      exact ⟨p, .inr hplace, rfl⟩
    case directory => cases hwrite
  mpr := by
    rintro ⟨p, hp, rfl⟩
    rw [write, locate_eq hp]
    cases (t.files.lookup p).isSome <;> rfl

-- There is no such file; a directory on the way may be missing as well.
def Lacks (t : FileTree) (file : String) : Prop :=
  t.read file = .error .missing

theorem follow_missing (hd : t'.directories = t.directories)
    (hfewer : ∀ p, t.files.lookup p = none → t'.files.lookup p = none)
    (h : t.follow directory names = .error .missing) : t'.follow directory names = .error .missing := by
  fun_induction follow t directory names
  case case1 | case5 | case6 | case7 => simp at h
  case case2 hskip ih => rw [follow, if_pos hskip, ih h]
  case case3 hskip hup ih => rw [follow, if_neg hskip, if_pos hup, ih h]
  case case4 hskip hup _ hdir ih =>
    rw [follow, if_neg hskip, if_neg hup]
    dsimp only
    rw [hd, if_pos hdir, ih h]
  case case8 hskip hup path hdir _ _ hnone =>
    rw [follow, if_neg hskip, if_neg hup]
    dsimp only
    rw [hd, if_neg hdir, hfewer path (by simpa using hnone)]
    rfl

theorem lacks_iff : t.Lacks file ↔
    t.locate file = .error .missing ∨ ∃ p, t.Stands file p ∧ t.files.lookup p = none where
  mp h := by
    rw [Lacks, read] at h
    rcases Outcome.bind_eq_error.mp h with h | ⟨place, hplace, h⟩
    case inl => exact .inl h
    case inr =>
      rcases stands_of_locate hplace with hp | hp
      case inl =>
        refine .inr ⟨_, hp, ?_⟩
        have hread : t.read file = .error .missing := by rwa [read, hplace]
        rw [read_of_stands hp] at hread
        cases hlookup : t.files.lookup place.path
        case none => rfl
        case some => simp [hlookup] at hread
      case inr =>
        rw [hp] at h
        cases h
  mpr := by
    rintro (h | ⟨p, hp, hnone⟩)
    case inl => rw [Lacks, read, h]; rfl
    case inr => rw [Lacks, read_of_stands hp, hnone]; rfl

theorem Lacks.mono (h : t.Lacks file) (hd : t'.directories = t.directories)
    (hfewer : ∀ p, t.files.lookup p = none → t'.files.lookup p = none) : t'.Lacks file := by
  rw [lacks_iff] at h ⊢
  rcases h with h | ⟨p, hp, hnone⟩
  case inl => exact .inl (follow_missing hd hfewer h)
  case inr => exact .inr ⟨p, hp.congr hd, hfewer p hnone⟩

theorem lookup_filter {files : List (String × String)} {q : String} :
    (files.filter (·.1 != p)).lookup q = if q = p then none else files.lookup q := by
  induction files
  case nil => simp
  case cons entry files ih =>
    obtain ⟨k, contents⟩ := entry
    by_cases hk : k = p
    case pos =>
      subst hk
      rw [List.filter_cons_of_neg (by simp), ih, List.lookup_cons]
      by_cases hq : q = k
      case pos => simp [hq]
      case neg => simp [hq, beq_eq_false_iff_ne.mpr hq]
    case neg =>
      rw [List.filter_cons_of_pos (by simpa using hk), List.lookup_cons, List.lookup_cons, ih]
      by_cases hq : q = k
      case pos => simp [hq, hk]
      case neg => simp [beq_eq_false_iff_ne.mpr hq]

-- The file is in both trees with the same text, or in neither.
def Agree (t t' : FileTree) (file : String) : Prop :=
  ∀ text, t'.read file = .ok text ↔ t.read file = .ok text

theorem Agree.refl : Agree t t file := fun _ => .rfl

theorem Agree.trans {t'' : FileTree} (h : Agree t t' file) (h' : Agree t' t'' file) : Agree t t'' file :=
  fun text => (h' text).trans (h text)

theorem agree_of_lookup (hd : t'.directories = t.directories)
    (hfile : t'.files.lookup (placeOf file) = t.files.lookup (placeOf file)) : Agree t t' file := by
  intro text
  rw [read_eq_ok, read_eq_ok]
  constructor
  case mp =>
    rintro ⟨p, hp, htext⟩
    refine ⟨p, hp.congr hd.symm, ?_⟩
    rw [hp.target_eq] at htext ⊢
    exact hfile.symm.trans htext
  case mpr =>
    rintro ⟨p, hp, htext⟩
    refine ⟨p, hp.congr hd, ?_⟩
    rw [hp.target_eq] at htext ⊢
    exact hfile.trans htext

theorem agree_remove (h : t.remove file = .ok t') (hne : placeOf other ≠ placeOf file) : Agree t t' other := by
  have ⟨place, hplace, hremove⟩ := Outcome.bind_eq_ok.mp h
  cases place
  case file p =>
    cases hremove
    have hp : t.Stands file p := .inl hplace
    have hne : placeOf other ≠ p := hp.target_eq ▸ hne
    exact agree_of_lookup rfl (by simp [lookup_filter, hne])
  case directory => cases hremove
  case vacant => cases hremove

theorem agree_write (h : t.write file text = .ok t') (hne : placeOf other ≠ placeOf file) : Agree t t' other := by
  obtain ⟨p, hp, rfl⟩ := write_eq_ok.mp h
  have hne : placeOf other ≠ p := hp.target_eq ▸ hne
  exact agree_of_lookup rfl (by simp [Assoc.lookup_put, hne])

-- The text of a file; a missing file is empty.
def contents (t : FileTree) (file : String) : String :=
  (t.read file).toOption.getD ""

section Access

open Outcome

variable {σ : Type} {get : σ → FileTree} {set : FileTree → σ → σ} {s s' : σ} {found : Option String}

-- The state after the tree that it holds was changed, if it was.
def changed (get : σ → FileTree) (set : FileTree → σ → σ) (s : σ) (change : FileTree → Except FileError FileTree) :
    Except FileError Unit × σ :=
  match change (get s) with
  | .ok t => (.ok (), set t s)
  | .error e => (.error e, s)

theorem run_remove : (((access get set).remove file).run s).run = changed get set s (·.remove file) := by
  unfold changed
  cases h : (get s).remove file <;> simp [access, h]

theorem run_write : (((access get set).write file text).run s).run = changed get set s (·.write file text) := by
  unfold changed
  cases h : (get s).write file text <;> simp [access, h]

theorem run_read? : (((access get set).read? file).run.run s).run = match (get s).read file with
    | .ok text => (.ok (some text), s)
    | .error .missing => (.ok none, s)
    | .error .failed => (.error .failed, s) := by
  have hread : ((ExceptT.lift ((access get set).read file) : ExceptT FileError (StateM σ) _).run.run s).run =
      (.ok ((get s).read file), s) := rfl
  rw [Files.read?, run_bind, hread]
  rcases (get s).read file with (_ | _) | text <;> rfl

-- That a file is missing is an answer.
theorem yields_read?_iff : Yields ((access get set).read? file) s found s' ↔
    s' = s ∧ found = ((get s).read file).toOption ∧ (get s).read file ≠ .error .failed := by
  rw [Yields, run_read?]
  rcases (get s).read file with (_ | _) | text <;> simp [Except.toOption, eq_comm, and_comm]

theorem yields_read? (h : Yields ((access get set).read? file) s found s') :
    s' = s ∧ found = ((get s).read file).toOption ∧ (found = none → (get s).Lacks file) := by
  obtain ⟨rfl, rfl, hreadable⟩ := yields_read?_iff.mp h
  refine ⟨rfl, rfl, fun hnone => ?_⟩
  rw [Lacks]
  rcases hread : (get s').read file with (_ | _) | text
  case error.missing => rfl
  case error.failed => exact absurd hread hreadable
  case ok => simp [hread, Except.toOption] at hnone

theorem run_clear : (((access get set).clear file).run.run s).run = match (get s).remove file with
    | .ok t => (.ok (), set t s)
    | .error .missing => (.ok (), s)
    | .error .failed => (.error .failed, s) := by
  have hremove : ((ExceptT.lift ((access get set).remove file) : ExceptT FileError (StateM σ) _).run.run s).run =
      (.ok (changed get set s (·.remove file)).1, (changed get set s (·.remove file)).2) := by
    rw [← run_remove]
    rfl
  rw [Files.clear, run_bind, hremove, changed]
  rcases (get s).remove file with (_ | _) | t <;> rfl

theorem stops_read? {e : FileError} : Stops ((access get set).read? file) s e ↔
    (get s).read file = .error .failed ∧ e = .failed := by
  rw [Stops, run_read?]
  rcases (get s).read file with (_ | _) | text <;> simp [eq_comm]

theorem stops_clear {e : FileError} : Stops ((access get set).clear file) s e ↔
    (get s).remove file = .error .failed ∧ e = .failed := by
  rw [Stops, run_clear]
  rcases (get s).remove file with (_ | _) | t <;> simp [eq_comm]

theorem keeps_read? {P : σ → Prop} : Keeps P ((access get set).read? file) := by
  intro s hs
  rw [after, run_read?]
  rcases (get s).read file with (_ | _) | text <;> exact hs

theorem keeps_clear (hget : ∀ t s, get (set t s) = t) (hne : placeOf other ≠ placeOf file) :
    Keeps (fun s => Agree t (get s) other) ((access get set).clear file) := by
  intro s hs
  rw [after, run_clear]
  rcases hremove : (get s).remove file with (_ | _) | t'
  case error.missing => exact hs
  case error.failed => exact hs
  case ok =>
    dsimp only
    rw [hget]
    exact hs.trans (agree_remove hremove hne)

theorem keeps_save (hget : ∀ t s, get (set t s) = t) (hne : placeOf other ≠ placeOf file) :
    Keeps (fun s => Agree t (get s) other) ((access get set).save file text) := by
  intro s hs
  have hrun : after ((access get set).save file text) s = (changed get set s (·.write file text)).2 := by
    rw [← run_write]
    rfl
  rw [hrun, changed]
  rcases hwrite : (get s).write file text with _ | t'
  case error => exact hs
  case ok =>
    dsimp only
    rw [hget]
    exact hs.trans (agree_write hwrite hne)

end Access

end Subplans.FileTree
