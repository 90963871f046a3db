/-
# Resolving the guest's paths

`PathResolution` of `env.cpp`.  The path that is checked is put together from three sources in a
buffer of its own, and the path that is returned for a relative one is another.  Strings are lists
of characters without their terminator.
-/
import Rv32jit.Env.HostCall

namespace Rv32jit.Env

/-- `PATH_MAX`. -/
def PATH_MAX : ℕ := 4096

/-- `AT_FDCWD`: relative to the working directory. -/
def AT_FDCWD : BitVec 32 := -100

/-- The path starts with a slash. -/
def IsAbsolute (path : List Char) : Prop := path.head? = some '/'

instance (path : List Char) : Decidable (IsAbsolute path) := inferInstanceAs (Decidable (_ = _))

/-- The path of a file descriptor. -/
def fdPath (fd : BitVec 32) : List Char :=
  "/proc/self/fd/".toList ++ (toString fd.toInt).toList

/-- `HandleSpecialPath`: the paths that the emulator answers itself. -/
def HandleSpecialPath (s : Sim) (path : List Char) : Option (List Char) :=
  if path = "/proc/self/exe".toList then some (fdPath s.exe_fd) else none

/-- The string in a buffer from character `i` on; nothing if it does not end in the `k` characters
that are left. -/
def untilNul (buf : ℕ → Char) : ℕ → ℕ → Option (List Char)
  | _, 0 => none
  | i, k + 1 => if buf i = '\x00' then some [] else (untilNul buf (i + 1) k).map (buf i :: ·)

/-- A string that has to be there; reading on behind a buffer is taken for an abort. -/
def orAbort {α : Type} : Option α → Handling α
  | some a => pure a
  | none => .abort

/-- The directory that `rp_buf` starts with; nothing if `-1` is returned. -/
def dirPrefix (s : Sim) (dirfd : BitVec 32) : Handling (Option (List Char) × Sim) :=
  if dirfd = AT_FDCWD then do
    let (a, s) ← hostCall s .getcwd
    match a with
    | .ok r => pure (some r.str, s)
    | .error _ => do
      -- the result is not looked at
      let d ← orAbort (untilNul s.stack 0 PATH_MAX)
      pure (some d, s)
  else do
    let (a, s) ← hostCall s (.readlink (fdPath dirfd))
    match a with
    | .error _ => pure (none, s)
    | .ok r => do
      -- `readlink` writes no terminator
      let d := r.str.take PATH_MAX
      let rest ← orAbort (untilNul s.stack d.length (PATH_MAX - d.length))
      pure (some (d ++ rest), s)

/-- `rp_buf` as it is first put together. -/
def rpBuf (s : Sim) (dirfd : BitVec 32) (path : List Char) :
    Handling (Option (List Char) × Sim) :=
  if IsAbsolute path then
    -- behind a longer root there would be no terminated string to compare
    if s.fsroot.length + 1 < PATH_MAX then
      pure (some ((s.fsroot ++ '/' :: path).take (PATH_MAX - 1)), s)
    else .abort
  else do
    let (d, s) ← dirPrefix s dirfd
    match d with
    | none => pure (none, s)
    | some d => if (d ++ path).length < PATH_MAX then pure (some (d ++ path), s) else .abort

/-- `PathResolution`: the resolved path, or nothing for `-1`.  A path that does not start with
`fsroot` ends in a panic. -/
def PathResolution (s : Sim) (dirfd : BitVec 32) (path : List Char) :
    Handling (Option (List Char) × Sim) := do
  let (rp_buf, s) ← rpBuf s dirfd path
  match rp_buf with
  | none => pure (none, s)
  | some rp_buf =>
    if ¬ s.fsroot <+: rp_buf then .abort
    else
      match HandleSpecialPath s (rp_buf.drop (s.fsroot.length + 1)) with
      | some resolved => pure (some resolved, s)
      | none => do
        let (a, s) ← hostCall s (.realpath rp_buf)
        match a with
        | .error _ => pure (none, s)
        | .ok r =>
          if ¬ s.fsroot <+: r.str then .abort
          else pure (some (if IsAbsolute path then r.str else path), s)

/-! ### How it runs -/

section

variable {env : ℕ → HostCall → HostCall.Answer} {s s' : Sim} {dirfd : BitVec 32}
  {path rp_buf : List Char} {o : Option (List Char)} {log : List (HostCall × HostCall.Answer)}

/-- The root and `exe_fd` stay, and there is nothing only if the last call has failed. -/
def Told (s : Sim) (o : Option (List Char)) (s' : Sim)
    (log : List (HostCall × HostCall.Answer)) : Prop :=
  s'.fsroot = s.fsroot ∧ s'.exe_fd = s.exe_fd ∧
    (o = none → ∃ c, log.getLast? = some (c, .error s'.errno))

lemma run_dirPrefix_told (h : (dirPrefix s dirfd).run env 0 = (some (o, s'), log)) :
    Told s o s' log := by
  rw [dirPrefix] at h
  split at h
  · rw [run_hostCall_bind] at h
    simp only at h
    cases ha : env 0 .getcwd with
    | ok r =>
      rw [ha] at h
      cases h
      exact ⟨rfl, rfl, fun ho => nomatch ho⟩
    | error e =>
      rw [ha] at h
      simp only at h
      cases hd : untilNul (s.after (.error e)).stack 0 PATH_MAX with
      | none =>
        rw [hd] at h
        cases h
      | some d =>
        rw [hd] at h
        cases h
        exact ⟨rfl, rfl, fun ho => nomatch ho⟩
  · rw [run_hostCall_bind] at h
    simp only at h
    cases ha : env 0 (.readlink (fdPath dirfd)) with
    | error e =>
      rw [ha] at h
      cases h
      exact ⟨rfl, rfl, fun _ => ⟨_, rfl⟩⟩
    | ok r =>
      rw [ha] at h
      simp only at h
      cases hd : untilNul (s.after (.ok r)).stack (r.str.take PATH_MAX).length
          (PATH_MAX - (r.str.take PATH_MAX).length) with
      | none =>
        rw [hd] at h
        cases h
      | some d =>
        rw [hd] at h
        cases h
        exact ⟨rfl, rfl, fun ho => nomatch ho⟩

lemma run_rpBuf_told (h : (rpBuf s dirfd path).run env 0 = (some (o, s'), log)) :
    Told s o s' log := by
  rw [rpBuf] at h
  split at h
  · split at h
    · cases h
      exact ⟨rfl, rfl, fun ho => nomatch ho⟩
    · cases h
  · rcases hd : (dirPrefix s dirfd).run env 0 with ⟨_ | ⟨d, s1⟩, log1⟩
    · rw [Asking.run_bind, hd] at h
      cases h
    · rw [Asking.run_bind_some _ hd] at h
      obtain ⟨hroot, hexe, hlast⟩ := run_dirPrefix_told hd
      cases d with
      | none =>
        rw [Prod.mk.injEq] at h
        obtain ⟨ho, rfl⟩ := h
        cases ho
        refine ⟨hroot, hexe, fun _ => ?_⟩
        obtain ⟨c, hc⟩ := hlast rfl
        exact ⟨c, by simpa using hc⟩
      | some d =>
        simp only at h
        split at h
        · cases h
          exact ⟨hroot, hexe, fun ho => nomatch ho⟩
        · cases h

/-- What comes of the string that has been put together. -/
lemma run_checked (h : (rpBuf s dirfd path).run env 0 = (some (some rp_buf, s'), log)) :
    (PathResolution s dirfd path).run env 0 =
      if s.fsroot <+: rp_buf then
        match HandleSpecialPath s (rp_buf.drop (s.fsroot.length + 1)) with
        | some r => (some (some r, s'), log)
        | none =>
          match env log.length (.realpath rp_buf) with
          | .error e => (some (none, s'.setErrno e), log ++ [(.realpath rp_buf, .error e)])
          | .ok r =>
            (if s.fsroot <+: r.str then some (some (if IsAbsolute path then r.str else path), s')
              else none, log ++ [(.realpath rp_buf, .ok r)])
      else (none, log) := by
  obtain ⟨hroot, hexe, -⟩ := run_rpBuf_told h
  have hspecial : ∀ p, HandleSpecialPath s' p = HandleSpecialPath s p := fun p => by
    rw [HandleSpecialPath, HandleSpecialPath, hexe]
  rw [PathResolution, Asking.run_bind_some _ h]
  simp only [hroot, hspecial, Nat.zero_add]
  by_cases hpre : s.fsroot <+: rp_buf
  · rw [if_neg (not_not.mpr hpre), if_pos hpre]
    cases HandleSpecialPath s (rp_buf.drop (s.fsroot.length + 1)) with
    | some r => simp
    | none =>
      simp only [run_hostCall_bind]
      cases env log.length (.realpath rp_buf) with
      | error e => rfl
      | ok r =>
        simp only [Sim.after_ok, hroot]
        by_cases hr : s.fsroot <+: r.str
        · rw [if_neg (not_not.mpr hr), if_pos hr]
          rfl
        · rw [if_pos hr, if_neg hr]
          rfl
  · rw [if_pos hpre, if_neg hpre]
    simp

/-- A string that has not been put together ends in `-1`. -/
lemma run_unchecked (h : (rpBuf s dirfd path).run env 0 = (some (none, s'), log)) :
    (PathResolution s dirfd path).run env 0 = (some (none, s'), log) := by
  rw [PathResolution, Asking.run_bind_some _ h]
  simp

lemma run_abort (h : ((rpBuf s dirfd path).run env 0).1 = none) :
    ((PathResolution s dirfd path).run env 0).1 = none := by
  rw [PathResolution]
  exact Asking.run_bind_none _ h

end

/-! ### What is expected of it -/

/-- `realpath`: the resolved path of the file, or an error number. -/
abbrev RealPath := List Char → Except (BitVec 32) (List Char)

/-- The host in the directory `dir`, which is also that of every descriptor. -/
def pathHost (realpath : RealPath) (dir : List Char) : ℕ → HostCall → HostCall.Answer
  | _, .getcwd => .ok ⟨0, fun _ => 0, dir⟩
  | _, .readlink _ => .ok ⟨dir.length, fun _ => 0, dir⟩
  | _, .realpath path => (realpath path).map fun f => ⟨0, fun _ => 0, f⟩
  | _, _ => .error 0

/-- What `PathResolution` returns in the directory `dir`; the outer `none` stands for a panic, the
inner one for `-1`. -/
def resolved (realpath : RealPath) (s : Sim) (dir : List Char) (dirfd : BitVec 32)
    (path : List Char) : Option (Option (List Char)) :=
  ((PathResolution s dirfd path).run (pathHost realpath dir) 0).1.map Prod.fst

/-- The directory that `fsroot` names; `fsroot` itself ends in a slash. -/
def rootDir (s : Sim) : List Char := s.fsroot.dropLast

/-- The file is the root directory or below it. -/
def Inside (s : Sim) (f : List Char) : Prop :=
  rootDir s = ['/'] ∨ f = rootDir s ∨ s.fsroot <+: f

/-- The file that the guest means by a path. -/
def denoted (realpath : RealPath) (s : Sim) (dir path : List Char) :
    Except (BitVec 32) (List Char) :=
  realpath ((if IsAbsolute path then s.fsroot else dir) ++ '/' :: path)

/-- The file that the host takes a path for. -/
def located (realpath : RealPath) (dir path : List Char) : Except (BitVec 32) (List Char) :=
  realpath (if IsAbsolute path then path else dir ++ '/' :: path)

/-- A file that the path denotes inside the root is found and returned, and for every other path
`-1` is returned. -/
def Resolves (realpath : RealPath) (s : Sim) (dir : List Char) (dirfd : BitVec 32)
    (path : List Char) : Prop :=
  (∀ f, denoted realpath s dir path = .ok f → Inside s f →
      ∃ r, resolved realpath s dir dirfd path = some (some r) ∧ located realpath dir r = .ok f) ∧
    ((∀ f, denoted realpath s dir path = .ok f → ¬ Inside s f) →
      resolved realpath s dir dirfd path = some none)

/-! ### The string that is checked -/

/-- The directory as it stands in `rp_buf`, up to the first terminator. -/
def dirString (s : Sim) (dir : List Char) (dirfd : BitVec 32) : Option (List Char) :=
  if dirfd = AT_FDCWD then some dir
  else (untilNul s.stack (dir.take PATH_MAX).length (PATH_MAX - (dir.take PATH_MAX).length)).map
    (dir.take PATH_MAX ++ ·)

/-- The string that is checked, if its terminator is in the buffer.  A relative path follows its
directory without a slash. -/
def checked (s : Sim) (dir : List Char) (dirfd : BitVec 32) (path : List Char) :
    Option (List Char) :=
  if IsAbsolute path then
    if s.fsroot.length + 1 < PATH_MAX then some ((s.fsroot ++ '/' :: path).take (PATH_MAX - 1))
    else none
  else (dirString s dir dirfd).bind fun d =>
    if (d ++ path).length < PATH_MAX then some (d ++ path) else none

variable {realpath : RealPath} {s : Sim} {dir path : List Char} {dirfd : BitVec 32} {n : ℕ}

lemma run_dirPrefix : ((dirPrefix s dirfd).run (pathHost realpath dir) n).1 =
    (dirString s dir dirfd).map fun d => (some d, s) := by
  rw [dirPrefix, dirString]
  split
  · rfl
  · rw [Asking.run_bind, run_hostCall]
    simp only [pathHost, Sim.after_ok]
    cases untilNul s.stack (dir.take PATH_MAX).length (PATH_MAX - (dir.take PATH_MAX).length)
      <;> rfl

lemma run_rpBuf : ((rpBuf s dirfd path).run (pathHost realpath dir) n).1 =
    (checked s dir dirfd path).map fun rp_buf => (some rp_buf, s) := by
  rw [rpBuf, checked]
  split
  · split <;> rfl
  · rw [Asking.run_bind, run_dirPrefix]
    cases dirString s dir dirfd with
    | none => rfl
    | some d =>
      simp only [Option.map_some, Option.bind_some]
      split <;> rfl

/-- What comes of the string. -/
lemma resolved_eq : resolved realpath s dir dirfd path =
    (checked s dir dirfd path).bind fun rp_buf =>
      if s.fsroot <+: rp_buf then
        match HandleSpecialPath s (rp_buf.drop (s.fsroot.length + 1)) with
        | some r => some (some r)
        | none =>
          match realpath rp_buf with
          | .error _ => some none
          | .ok g =>
            if s.fsroot <+: g then some (some (if IsAbsolute path then g else path)) else none
      else none := by
  rw [resolved]
  have hput : ((rpBuf s dirfd path).run (pathHost realpath dir) 0).1 = _ := run_rpBuf
  cases hc : checked s dir dirfd path with
  | none =>
    rw [hc] at hput
    rw [run_abort hput]
    rfl
  | some rp_buf =>
    rw [hc] at hput
    have hrun : (rpBuf s dirfd path).run (pathHost realpath dir) 0 =
        (some (some rp_buf, s), ((rpBuf s dirfd path).run (pathHost realpath dir) 0).2) :=
      Prod.ext hput rfl
    rw [run_checked hrun, Option.bind_some]
    split
    · cases HandleSpecialPath s (rp_buf.drop (s.fsroot.length + 1)) with
      | some r => rfl
      | none =>
        simp only [pathHost]
        cases realpath rp_buf with
        | error e => rfl
        | ok g =>
          simp only [Except.map]
          split <;> rfl
    · rfl

/-! ### When paths are resolved -/

/-- The file that `f` names is the one that the guest means, and it is inside the root. -/
def Means (realpath : RealPath) (s : Sim) (dir path : List Char)
    (f : Except (BitVec 32) (List Char)) : Prop :=
  denoted realpath s dir path = f ∧ ∃ g, f = .ok g ∧ Inside s g

/-- The string that is checked stands for the path: it starts with `fsroot`, it leads to a file
inside exactly if the path does, and that is the file of the special path, or of the resolved
path if the path is absolute. -/
def Stands (realpath : RealPath) (s : Sim) (dir : List Char) (path rp_buf : List Char) : Prop :=
  s.fsroot <+: rp_buf ∧
    match HandleSpecialPath s (rp_buf.drop (s.fsroot.length + 1)) with
    | some r => Means realpath s dir path (located realpath dir r)
    | none =>
      match realpath rp_buf with
      | .error _ => ∀ f, denoted realpath s dir path = .ok f → ¬ Inside s f
      | .ok g => s.fsroot <+: g ∧
          Means realpath s dir path
            (if IsAbsolute path then located realpath dir g else denoted realpath s dir path)

lemma resolves_some {r : List Char} (h : resolved realpath s dir dirfd path = some (some r)) :
    Resolves realpath s dir dirfd path ↔ Means realpath s dir path (located realpath dir r) := by
  constructor
  · rintro ⟨hin, hout⟩
    by_cases hex : ∃ f, denoted realpath s dir path = .ok f ∧ Inside s f
    · obtain ⟨f, hf, hi⟩ := hex
      obtain ⟨r', hr', hloc⟩ := hin f hf hi
      rw [h] at hr'
      cases hr'
      exact ⟨hf.trans hloc.symm, f, hloc, hi⟩
    · have hnone := hout fun f hf hi => hex ⟨f, hf, hi⟩
      rw [h] at hnone
      cases hnone
  · rintro ⟨hd, f, hf, hi⟩
    refine ⟨fun f' hf' _ => ⟨r, h, ?_⟩, fun hno => absurd hi (hno f (hd.trans hf))⟩
    rw [← hd, hf']

lemma resolves_fail (h : resolved realpath s dir dirfd path = some none) :
    Resolves realpath s dir dirfd path ↔
      ∀ f, denoted realpath s dir path = .ok f → ¬ Inside s f := by
  refine ⟨fun ⟨hin, _⟩ f hf hi => ?_, fun hno => ⟨fun f hf hi => absurd hi (hno f hf), fun _ => h⟩⟩
  obtain ⟨r, hr, -⟩ := hin f hf hi
  rw [h] at hr
  cases hr

lemma not_resolves_of_panic (h : resolved realpath s dir dirfd path = none) :
    ¬ Resolves realpath s dir dirfd path := by
  rintro ⟨hin, hout⟩
  by_cases hex : ∃ f, denoted realpath s dir path = .ok f ∧ Inside s f
  · obtain ⟨f, hf, hi⟩ := hex
    obtain ⟨r, hr, -⟩ := hin f hf hi
    rw [h] at hr
    cases hr
  · have hnone := hout fun f hf hi => hex ⟨f, hf, hi⟩
    rw [h] at hnone
    cases hnone

/-- Files are found inside the root, and no others, if and only if the string that is checked
stands for the path. -/
lemma resolves_iff_stands :
    Resolves realpath s dir dirfd path ↔
      ∃ rp_buf, checked s dir dirfd path = some rp_buf ∧ Stands realpath s dir path rp_buf := by
  have heq : resolved realpath s dir dirfd path = _ := resolved_eq
  cases hc : checked s dir dirfd path with
  | none =>
    rw [hc, Option.bind_none] at heq
    simp [not_resolves_of_panic heq]
  | some rp_buf =>
    rw [hc, Option.bind_some] at heq
    simp only [Option.some.injEq, exists_eq_left', Stands]
    by_cases hpre : s.fsroot <+: rp_buf
    · rw [if_pos hpre] at heq
      simp only [hpre, true_and]
      cases hsp : HandleSpecialPath s (rp_buf.drop (s.fsroot.length + 1)) with
      | some r =>
        rw [hsp] at heq
        exact resolves_some heq
      | none =>
        rw [hsp] at heq
        cases hr : realpath rp_buf with
        | error e =>
          rw [hr] at heq
          exact resolves_fail heq
        | ok g =>
          rw [hr] at heq
          by_cases hg : s.fsroot <+: g
          · simp only [hg, if_true] at heq
            rw [resolves_some heq]
            simp only [hg, true_and]
            split
            · rfl
            · rename_i hrel
              rw [located, denoted, if_neg hrel, if_neg hrel]
          · simp only [hg, if_false] at heq
            simp [hg, not_resolves_of_panic heq]
    · rw [if_neg hpre] at heq
      simp [hpre, not_resolves_of_panic heq]

/-! ### The paths that are resolved -/

/-- What `realpath` promises. -/
structure IsRealPath (realpath : RealPath) : Prop where
  absolute : ∀ p g, realpath p = .ok g → IsAbsolute g
  idem : ∀ p g, realpath p = .ok g → realpath g = .ok g
  too_long : ∀ p, PATH_MAX ≤ p.length → ∃ e, realpath p = .error e

/-- The part of an absolute path that is left of it behind `fsroot` and a slash. -/
def seen (s : Sim) (path : List Char) : List Char := path.take (PATH_MAX - 2 - s.fsroot.length)

/-- The file that the path names exists and is inside the root. -/
def Leads (realpath : RealPath) (s : Sim) (path : List Char) : Prop :=
  ∃ g, realpath path = .ok g ∧ Inside s g

/-- Condition on an absolute path.  It fits into `rp_buf` behind `fsroot`, or what is left of it
names nothing; and its file is not the root itself, and not outside.  `/proc/self/exe` is inside
the root the file of `exe_fd`. -/
def AbsoluteSound (realpath : RealPath) (s : Sim) (path : List Char) : Prop :=
  s.fsroot.length + 1 < PATH_MAX ∧
    if seen s path = "/proc/self/exe".toList then
      realpath (s.fsroot ++ '/' :: path) = realpath (fdPath s.exe_fd) ∧
        Leads realpath s (fdPath s.exe_fd)
    else ∀ g, realpath (s.fsroot ++ '/' :: seen s path) = .ok g →
      s.fsroot <+: g ∧ seen s path = path

/-- Condition on a relative path in the directory `dir`, of which `d` is in `rp_buf`.  `d ++ path`
fits, and starts with `fsroot`; it names no file that is the root or outside, and it leads inside
exactly if `dir/path` does. -/
def RelativeSound (realpath : RealPath) (s : Sim) (dir d path : List Char) : Prop :=
  (d ++ path).length < PATH_MAX ∧ s.fsroot <+: d ++ path ∧
    if (d ++ path).drop (s.fsroot.length + 1) = "/proc/self/exe".toList then
      realpath (dir ++ '/' :: path) = realpath (fdPath s.exe_fd) ∧
        Leads realpath s (fdPath s.exe_fd)
    else (∀ g, realpath (d ++ path) = .ok g → s.fsroot <+: g) ∧
      (Leads realpath s (dir ++ '/' :: path) ↔ ∃ g, realpath (d ++ path) = .ok g)

lemma isAbsolute_fdPath (fd : BitVec 32) : IsAbsolute (fdPath fd) := rfl

lemma inside_of_prefix {g : List Char} (h : s.fsroot <+: g) : Inside s g := .inr (.inr h)

lemma take_fsroot (h : s.fsroot.length + 1 < PATH_MAX) :
    (s.fsroot ++ '/' :: path).take (PATH_MAX - 1) = s.fsroot ++ '/' :: seen s path := by
  have hk : PATH_MAX - 1 = s.fsroot.length + (PATH_MAX - 2 - s.fsroot.length + 1) := by omega
  rw [hk, List.take_length_add_append, List.take_succ_cons, seen]

lemma checked_absolute (habs : IsAbsolute path) : checked s dir dirfd path =
    if s.fsroot.length + 1 < PATH_MAX then some (s.fsroot ++ '/' :: seen s path) else none := by
  rw [checked, if_pos habs]
  split
  · rename_i hlen
    rw [take_fsroot hlen]
  · rfl

lemma seen_ne_of_long (h : s.fsroot.length + 1 < PATH_MAX) (hs : seen s path ≠ path) :
    PATH_MAX ≤ (s.fsroot ++ '/' :: path).length := by
  by_contra hlt
  refine hs (List.take_of_length_le ?_)
  simp only [List.length_append, List.length_cons] at hlt
  omega

lemma handleSpecialPath_eq (p : List Char) : HandleSpecialPath s p =
    if p = "/proc/self/exe".toList then some (fdPath s.exe_fd) else none := rfl

lemma means_special {f : List Char} (habs : IsAbsolute f) :
    Means realpath s dir path (located realpath dir f) ↔
      denoted realpath s dir path = realpath f ∧ Leads realpath s f := by
  rw [Means, located, if_pos habs]
  rfl

lemma not_leads {f : List Char} :
    (¬ Leads realpath s f) ↔ ∀ g, realpath f = .ok g → ¬ Inside s g := by
  simp [Leads]

lemma stands_absolute (hreal : IsRealPath realpath) (habs : IsAbsolute path)
    (h : s.fsroot.length + 1 < PATH_MAX) :
    Stands realpath s dir path (s.fsroot ++ '/' :: seen s path) ↔
      AbsoluteSound realpath s path := by
  have hdrop : (s.fsroot ++ '/' :: seen s path).drop (s.fsroot.length + 1) = seen s path := by
    rw [List.drop_length_add_append, List.drop_succ_cons, List.drop_zero]
  rw [Stands, AbsoluteSound, hdrop, handleSpecialPath_eq]
  simp only [List.prefix_append, true_and, h]
  by_cases hsp : seen s path = "/proc/self/exe".toList
  · simp only [if_pos hsp]
    rw [means_special (isAbsolute_fdPath _), denoted, if_pos habs]
  · simp only [if_neg hsp]
    cases hr : realpath (s.fsroot ++ '/' :: seen s path) with
    | error e =>
      simp only [reduceCtorEq, false_implies, implies_true, iff_true]
      intro f hf
      rw [denoted, if_pos habs] at hf
      by_cases hseen : seen s path = path
      · rw [hseen, hf] at hr
        cases hr
      · obtain ⟨e', he'⟩ := hreal.too_long _ (seen_ne_of_long h hseen)
        rw [hf] at he'
        cases he'
    | ok g =>
      simp only [Except.ok.injEq, forall_eq', if_pos habs]
      refine and_congr_right fun hg => ?_
      have hloc : located realpath dir g = .ok g := by
        rw [located, if_pos (hreal.absolute _ _ hr), hreal.idem _ _ hr]
      rw [hloc, Means, denoted, if_pos habs]
      constructor
      · rintro ⟨hd, -⟩
        by_contra hseen
        obtain ⟨e, he⟩ := hreal.too_long _ (seen_ne_of_long h hseen)
        rw [hd] at he
        cases he
      · intro hseen
        rw [hseen] at hr
        exact ⟨hr, g, rfl, inside_of_prefix hg⟩

lemma stands_relative {d : List Char} (hrel : ¬ IsAbsolute path)
    (h : (d ++ path).length < PATH_MAX) :
    Stands realpath s dir path (d ++ path) ↔ RelativeSound realpath s dir d path := by
  rw [Stands, RelativeSound, handleSpecialPath_eq]
  simp only [h, true_and]
  refine and_congr_right fun _ => ?_
  by_cases hsp : (d ++ path).drop (s.fsroot.length + 1) = "/proc/self/exe".toList
  · simp only [if_pos hsp]
    rw [means_special (isAbsolute_fdPath _), denoted, if_neg hrel]
  · simp only [if_neg hsp, denoted, if_neg hrel]
    cases hr : realpath (d ++ path) with
    | error e => simp [← not_leads]
    | ok g =>
      simp only [Except.ok.injEq, forall_eq', exists_eq', iff_true]
      rw [Means, denoted, if_neg hrel, Leads]
      simp

/-- A host whose only file is `/r/a/b`. -/
def onlyFile : RealPath := fun p =>
  if p = "/r/a/b".toList ∨ p = "/r///a/b".toList then .ok "/r/a/b".toList else .error 2

/-- The simulator started in `/r`. -/
def startedIn : Sim where
  proc := ⟨.init (fun _ => none) (fun _ => .refused ENOMEM) 0, 0⟩
  fsroot := "/r/".toList
  exe_fd := 3
  zero_mmu_base := true
  stack := fun _ => '\x00'
  local_var := 0

lemma isRealPath_onlyFile : IsRealPath onlyFile where
  absolute p g h := by
    rw [onlyFile] at h
    split at h
    · cases h
      rfl
    · cases h
  idem p g h := by
    rw [onlyFile] at h
    split at h
    · cases h
      rfl
    · cases h
  too_long p h := by
    refine ⟨2, if_neg ?_⟩
    rintro (rfl | rfl) <;> exact absurd h (by decide)

/-- `PathResolution` finds the files inside the root, and no others, if and only if an absolute path
fits and does not lead outside, or a relative one leads, as it follows its directory without a
slash, to where it should. -/
theorem resolves_iff_sound (hreal : IsRealPath realpath) (s : Sim) (dir : List Char)
    (dirfd : BitVec 32) (path : List Char) :
    Resolves realpath s dir dirfd path ↔
      (IsAbsolute path ∧ AbsoluteSound realpath s path) ∨
      (¬ IsAbsolute path ∧
        ∃ d, dirString s dir dirfd = some d ∧ RelativeSound realpath s dir d path) := by
  rw [resolves_iff_stands]
  by_cases habs : IsAbsolute path
  · rw [checked_absolute habs]
    by_cases hlen : s.fsroot.length + 1 < PATH_MAX
    · rw [if_pos hlen]
      constructor
      · rintro ⟨rp_buf, hrp, hst⟩
        cases hrp
        exact .inl ⟨habs, (stands_absolute hreal habs hlen).mp hst⟩
      · rintro (⟨-, hsound⟩ | ⟨hrel, -⟩)
        · exact ⟨_, rfl, (stands_absolute hreal habs hlen).mpr hsound⟩
        · exact absurd habs hrel
    · rw [if_neg hlen]
      constructor
      · rintro ⟨rp_buf, hrp, -⟩
        cases hrp
      · rintro (⟨-, hsound⟩ | ⟨hrel, -⟩)
        · exact absurd hsound.1 hlen
        · exact absurd habs hrel
  · rw [checked, if_neg habs]
    constructor
    · rintro ⟨rp_buf, hrp, hst⟩
      obtain ⟨d, hd, hrp⟩ := Option.bind_eq_some_iff.mp hrp
      split at hrp
      · rename_i hlen
        cases hrp
        exact .inr ⟨habs, d, hd, (stands_relative habs hlen).mp hst⟩
      · cases hrp
    · rintro (⟨habs', -⟩ | ⟨-, d, hd, hrel⟩)
      · exact absurd habs' habs
      · exact ⟨d ++ path, Option.bind_eq_some_iff.mpr ⟨d, hd, if_pos hrel.1⟩,
          (stands_relative habs hrel.1).mpr hrel⟩

/-- In the root the file is found. -/
theorem resolves_in_root :
    Resolves onlyFile startedIn "/r/a".toList AT_FDCWD "/a/b".toList := by
  refine (resolves_iff_sound isRealPath_onlyFile startedIn _ AT_FDCWD _).mpr
    (.inl ⟨rfl, by decide, ?_⟩)
  rw [if_neg (by decide)]
  intro g hg
  cases hg
  exact ⟨by decide, rfl⟩

/-- In the directory `/r/a` it is not: the string that is checked is `/r/ab`. -/
theorem not_resolves_in_dir : IsRealPath onlyFile ∧ Inside startedIn "/r/a".toList ∧
    ¬ Resolves onlyFile startedIn "/r/a".toList AT_FDCWD "b".toList := by
  refine ⟨isRealPath_onlyFile, .inr (.inr (by decide)), ?_⟩
  rintro ⟨hin, -⟩
  obtain ⟨r, hr, -⟩ := hin "/r/a/b".toList rfl (.inr (.inr (by decide)))
  have hno : resolved onlyFile startedIn "/r/a".toList AT_FDCWD "b".toList = some none := by
    rw [resolved_eq]
    decide
  rw [hno] at hr
  cases hr

end Rv32jit.Env
