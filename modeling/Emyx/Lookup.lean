/-
  File:      Emyx/Lookup.lean
  Subject:   THE ARCHIVE LOOKUP ON ANY BYTES, and the boot module it runs on.

  The archive is whatever the boot loader put in memory: count, offsets and sizes are not to be
  trusted. Here `initramfs_find` runs on readers that fail past the end -- of the archive, and of
  the caller's string -- so that a call which returns has read nothing beyond them.

  * `findAt` -- `initramfs_find` with the caller's string read byte by byte;
  * `HeaderOk`, `fieldName`, `EntryIs` -- the format on a plain list of bytes;
  * **`initramfsFind_meets`** -- on every byte string and every path the call returns, and it
    succeeds exactly with the first entry of that name, if its range lies in the archive;
  * **`bootModule_addressable_iff`** -- what `boot_init` publishes is addressable, with its true
    length, exactly if the module's bounds are in order and it ends inside the direct map.
-/
import Emyx.Archive
import Emyx.ModuleSurvival

namespace Emyx

open Lib

/-! ## 1. The lookup with both its inputs as readers -/

section Readers

variable (rd pr : Nat → Except Stop Byte)

/-- `path_matches`, from byte `i` of the field and of the string on, with `n` turns left. -/
def pathMatchesAt (off : Nat) : Nat → Nat → Except Stop Bool
  | 0, _ => return false
  | n + 1, i => do
    if (← rd (off + i)) ≠ (← pr i) then return false
    else if (← pr i) = 0 then return true
    else pathMatchesAt off n (i + 1)

/-- The loop of `initramfs_find` from entry `i` on, with `n` entries left. -/
def findFromAt (size : Nat) : Nat → Nat → Except Stop (Option (Nat × Nat))
  | 0, _ => return none
  | n + 1, i => do
    if ← pathMatchesAt rd pr (8 + i * 40) 32 0 then do
      let offset ← readLe32 rd (8 + i * 40 + 32)
      let fileSize ← readLe32 rd (8 + i * 40 + 36)
      if offset > size ∨ fileSize > size - offset then return none
      else return some (offset, fileSize)
    else findFromAt size n (i + 1)

/-- `initramfs_find`: offset and size of the file. -/
def findAt (mod : BootModule) : Except Stop (Option (Nat × Nat)) := do
  match ← initramfsHeader rd mod with
  | none => return none
  | some count => findFromAt rd pr mod.size count 0

end Readers

section Agree

variable {rd pr : Nat → Except Stop Byte} {path : List Byte}

/-- On a string with its terminator the two forms of `path_matches` are one. -/
theorem pathMatchesAt_eq {off n i : Nat} (hpath : ∀ b ∈ path, b ≠ 0)
    (h : Reads pr i (path ++ [0])) :
    pathMatchesAt rd pr off n i = pathMatches rd n (off + i) path := by
  induction n generalizing i path with
  | zero => rfl
  | succ n ih =>
    cases path with
    | nil =>
      have h0 : pr i = .ok 0 := (reads_cons.mp h).1
      rw [pathMatchesAt, pathMatches, h0]
      cases hr : rd (off + i) with
      | error e => rfl
      | ok a =>
        simp only [ok_bind]
        by_cases ha : a = 0
        · rw [if_neg (not_not.mpr ha), if_pos trivial, decide_eq_true ha]
        · rw [if_pos ha, decide_eq_false ha]
    | cons c path =>
      rw [List.cons_append] at h
      obtain ⟨hc, hrest⟩ := reads_cons.mp h
      have hne := hpath c List.mem_cons_self
      have hih := @ih path (i + 1) (fun b hb => hpath b (List.mem_cons_of_mem _ hb)) hrest
      rw [pathMatchesAt, pathMatches, hc, hih]
      rfl

theorem findAt_eq {mod : BootModule} (hpath : ∀ b ∈ path, b ≠ 0) (h : Reads pr 0 (path ++ [0])) :
    findAt rd pr mod = findIn rd mod path := by
  have hfrom : ∀ size n i, findFromAt rd pr size n i = findFrom rd size path n i := fun size n => by
    induction n with
    | zero => exact fun i => rfl
    | succ n ih =>
      intro i
      rw [findFromAt, findFrom, pathMatchesAt_eq hpath h, ih]
      rfl
  unfold findAt findIn
  refine bind_congr fun count => ?_
  cases count with
  | none => rfl
  | some n => exact hfrom mod.size n 0

end Agree

/-! ## 2. The format on a list of bytes -/

/-- The byte string as a reader that fails past its end. -/
def bytesAt (xs : List Byte) (i : Nat) : Except Stop Byte :=
  match xs[i]? with
  | some b => .ok b
  | none => .error (.pageFault i)

/-- The little-endian word at an offset. -/
def wordAt (xs : List Byte) (off : Nat) : Nat :=
  (xs.getD off 0).toNat + 256 * (xs.getD (off + 1) 0).toNat + 65536 * (xs.getD (off + 2) 0).toNat +
    16777216 * (xs.getD (off + 3) 0).toNat

/-- The header is valid: magic, and a table of `count` entries that fits. -/
structure HeaderOk (xs : List Byte) (count : Nat) : Prop where
  size : 8 ≤ xs.length
  magic : xs.take 4 = [0x45, 0x4D, 0x58, 0x41]
  files : wordAt xs 4 = count
  table : 8 + count * 40 ≤ xs.length

/-- The name in a path field: the bytes before its first NUL, if it has one. -/
def fieldName : List Byte → Option (List Byte)
  | [] => none
  | a :: xs => if a = 0 then some [] else (fieldName xs).map (a :: ·)

theorem fieldName_zero (xs : List Byte) : fieldName (0 :: xs) = some [] := rfl

theorem fieldName_cons {a : Byte} (h : a ≠ 0) (xs : List Byte) :
    fieldName (a :: xs) = (fieldName xs).map (a :: ·) := if_neg h

/-- Entry `i` has the name `path`. -/
def EntryIs (xs path : List Byte) (i : Nat) : Prop :=
  fieldName ((xs.drop (8 + i * 40)).take 32) = some path

instance (xs path : List Byte) (i : Nat) : Decidable (EntryIs xs path i) :=
  inferInstanceAs (Decidable (_ = _))

/-- The file's offset and size as entry `i` gives them. -/
def entryRange (xs : List Byte) (i : Nat) : Nat × Nat :=
  (wordAt xs (8 + i * 40 + 32), wordAt xs (8 + i * 40 + 36))

theorem bytesAt_of_lt {xs : List Byte} {i : Nat} (h : i < xs.length) :
    bytesAt xs i = .ok (xs.getD i 0) := by
  unfold bytesAt
  rw [List.getElem?_eq_getElem h, List.getD_eq_getElem _ _ h]

theorem reads_bytesAt (xs : List Byte) (off n : Nat) :
    Reads (bytesAt xs) off ((xs.drop off).take n) := by
  intro i x hx
  rw [List.getElem?_take] at hx
  split at hx
  · rw [List.getElem?_drop] at hx
    unfold bytesAt
    rw [hx]
  · cases hx

theorem readLe32_bytesAt {xs : List Byte} {off : Nat} (h : off + 4 ≤ xs.length) :
    readLe32 (bytesAt xs) off = .ok (wordAt xs off) := by
  unfold readLe32 wordAt
  rw [bytesAt_of_lt (by omega), bytesAt_of_lt (by omega), bytesAt_of_lt (by omega),
    bytesAt_of_lt (by omega)]
  rfl

/-- `path_matches` compares the string with the field's name. -/
theorem pathMatches_name {rd : Nat → Except Stop Byte} {field path : List Byte} {off : Nat}
    (hpath : ∀ b ∈ path, b ≠ 0) (h : Reads rd off field) :
    pathMatches rd field.length off path = .ok (decide (fieldName field = some path)) := by
  induction field generalizing off path with
  | nil => rfl
  | cons a field ih =>
    obtain ⟨ha, hrest⟩ := reads_cons.mp h
    rw [List.length_cons]
    by_cases h0 : a = 0
    · -- the field ends here
      subst h0
      rw [fieldName_zero]
      cases path with
      | nil =>
        rw [pathMatches, ha, ok_bind]
        rfl
      | cons c path =>
        have hc : (0 : Byte) ≠ c := fun e => hpath c List.mem_cons_self e.symm
        rw [pathMatches, ha, ok_bind, if_pos hc]
        rfl
    · rw [fieldName_cons h0]
      cases path with
      | nil =>
        rw [pathMatches, ha, ok_bind, decide_eq_false h0, decide_eq_false]
        · rfl
        · simp
      | cons c path =>
        rw [pathMatches, ha, ok_bind]
        by_cases hac : a = c
        · subst hac
          rw [if_neg (not_not.mpr rfl), if_neg h0,
            ih (fun b hb => hpath b (List.mem_cons_of_mem _ hb)) hrest]
          simp
        · rw [if_pos hac, decide_eq_false]
          · rfl
          · simp [hac]

theorem magicMatches_bytesAt {xs : List Byte} (h : 8 ≤ xs.length) (c0 c1 c2 c3 : Byte) :
    magicMatches (bytesAt xs) c0 c1 c2 c3 = .ok (decide (xs.take 4 = [c0, c1, c2, c3])) := by
  obtain ⟨a, b, c, d, ys, rfl⟩ : ∃ a b c d ys, xs = a :: b :: c :: d :: ys := by
    match xs, h with
    | a :: b :: c :: d :: ys, _ => exact ⟨a, b, c, d, ys, rfl⟩
  have h0 : bytesAt (a :: b :: c :: d :: ys) 0 = .ok a := rfl
  have h1 : bytesAt (a :: b :: c :: d :: ys) 1 = .ok b := rfl
  have h2 : bytesAt (a :: b :: c :: d :: ys) 2 = .ok c := rfl
  have h3 : bytesAt (a :: b :: c :: d :: ys) 3 = .ok d := rfl
  unfold magicMatches
  rw [h0, h1, h2, h3]
  simp only [ok_bind]
  by_cases ha : a = c0
  · by_cases hb : b = c1
    · by_cases hc : c = c2
      · simp [ha, hb, hc, pure, Except.pure]
      · simp [ha, hb, hc, pure, Except.pure]
    · simp [ha, hb, pure, Except.pure]
  · simp [ha, pure, Except.pure]

/-- The header is accepted exactly if it is valid. -/
theorem initramfsHeader_bytesAt (xs : List Byte) {start : Nat} (hs : start ≠ 0) :
    ∃ r, initramfsHeader (bytesAt xs) ⟨start, xs.length⟩ = .ok r ∧
      ∀ count, r = some count ↔ HeaderOk xs count := by
  unfold initramfsHeader
  by_cases hsize : xs.length < 8
  · refine ⟨none, by rw [if_pos (.inr hsize)]; rfl, fun count => ⟨nofun, fun h => ?_⟩⟩
    have := h.size
    omega
  · rw [if_neg fun hc => hc.elim hs hsize, magicMatches_bytesAt (by omega), ok_bind]
    by_cases hm : xs.take 4 = [0x45, 0x4D, 0x58, 0x41]
    · rw [decide_eq_true hm, if_neg (by decide), readLe32_bytesAt (by omega), ok_bind]
      by_cases hc : wordAt xs 4 > (xs.length - 8) / 40
      · refine ⟨none, by rw [if_pos hc]; rfl, fun count => ⟨nofun, fun h => ?_⟩⟩
        have := h.table
        rw [← h.files] at this
        omega
      · refine ⟨some (wordAt xs 4), by rw [if_neg hc]; rfl, fun count => ⟨fun e => ?_, fun h => ?_⟩⟩
        · cases e
          exact ⟨by omega, hm, rfl, by omega⟩
        · rw [h.files]
    · rw [decide_eq_false hm, if_pos (by decide)]
      exact ⟨none, rfl, fun count => ⟨nofun, fun h => absurd h.magic hm⟩⟩

/-- The file of entry `j`, if its range lies in the archive. -/
def entryFile (xs : List Byte) (j : Nat) : Option (Nat × Nat) :=
  if (entryRange xs j).1 > xs.length ∨ (entryRange xs j).2 > xs.length - (entryRange xs j).1 then none
  else some (entryRange xs j)

theorem entryFile_eq_some {xs : List Byte} {j off fileSize : Nat} :
    entryFile xs j = some (off, fileSize) ↔
      entryRange xs j = (off, fileSize) ∧ off ≤ xs.length ∧ off + fileSize ≤ xs.length := by
  unfold entryFile
  generalize entryRange xs j = r
  split
  next h =>
    refine ⟨nofun, ?_⟩
    rintro ⟨rfl, h1, h2⟩
    dsimp only at h
    omega
  next h =>
    constructor
    · intro e
      cases e
      dsimp only at h
      exact ⟨rfl, by omega, by omega⟩
    · rintro ⟨rfl, -, -⟩
      rfl

/-- `path_matches` on the path field of entry `i`. -/
theorem pathMatches_entry {xs path : List Byte} {i : Nat} (hpath : ∀ b ∈ path, b ≠ 0)
    (hfit : 8 + i * 40 + 40 ≤ xs.length) :
    pathMatches (bytesAt xs) 32 (8 + i * 40) path = .ok (decide (EntryIs xs path i)) := by
  have hlen : ((xs.drop (8 + i * 40)).take 32).length = 32 := by
    rw [List.length_take, List.length_drop]
    omega
  have h := pathMatches_name hpath (reads_bytesAt xs (8 + i * 40) 32)
  rw [hlen] at h
  exact h

/-- **The loop** ends at the first entry with the name, or after the last entry. -/
theorem findFrom_bytesAt {xs path : List Byte} (hpath : ∀ b ∈ path, b ≠ 0) {n i : Nat}
    (hfit : 8 + (i + n) * 40 ≤ xs.length) :
    (∃ j, (i ≤ j ∧ j < i + n) ∧ EntryIs xs path j ∧ (∀ k, i ≤ k → k < j → ¬ EntryIs xs path k) ∧
      findFrom (bytesAt xs) xs.length path n i = .ok (entryFile xs j)) ∨
    (∀ k, i ≤ k → k < i + n → ¬ EntryIs xs path k) ∧
      findFrom (bytesAt xs) xs.length path n i = .ok none := by
  induction n generalizing i with
  | zero => exact .inr ⟨fun k h1 h2 => by omega, rfl⟩
  | succ n ih =>
    rw [findFrom, pathMatches_entry hpath (by omega), ok_bind]
    by_cases he : EntryIs xs path i
    · -- found: the range is read and checked
      refine .inl ⟨i, ⟨Nat.le_refl i, by omega⟩, he, fun k h1 h2 => by omega, ?_⟩
      rw [decide_eq_true he, if_pos rfl, readLe32_bytesAt (by omega), ok_bind,
        readLe32_bytesAt (by omega), ok_bind]
      unfold entryFile entryRange
      split <;> rfl
    · rw [decide_eq_false he, if_neg Bool.false_ne_true]
      have hlater : ∀ {j}, (∀ k, i + 1 ≤ k → k < j → ¬ EntryIs xs path k) →
          ∀ k, i ≤ k → k < j → ¬ EntryIs xs path k := fun h k h1 h2 => by
        rcases Nat.eq_or_lt_of_le h1 with rfl | h3
        · exact he
        · exact h k h3 h2
      rcases @ih (i + 1) (by omega) with ⟨j, hj, hej, hfirst, e⟩ | ⟨hnone, e⟩
      · exact .inl ⟨j, by omega, hej, hlater hfirst, e⟩
      · exact .inr ⟨hlater fun k h1 h2 => hnone k h1 (by omega), e⟩

/-- The file the archive holds under the name `path`: the first entry of that name, its range in
    the archive. -/
def FileAt (xs path : List Byte) (off fileSize : Nat) : Prop :=
  ∃ count i, HeaderOk xs count ∧ i < count ∧ EntryIs xs path i ∧ (∀ j, j < i → ¬ EntryIs xs path j) ∧
    entryRange xs i = (off, fileSize) ∧ off ≤ xs.length ∧ off + fileSize ≤ xs.length

theorem findIn_bytesAt {xs path : List Byte} {start : Nat} (hs : start ≠ 0)
    (hpath : ∀ b ∈ path, b ≠ 0) :
    ∃ r, findIn (bytesAt xs) ⟨start, xs.length⟩ path = .ok r ∧
      ∀ off fileSize, r = some (off, fileSize) ↔ FileAt xs path off fileSize := by
  obtain ⟨hd, ehd, hiff⟩ := initramfsHeader_bytesAt xs hs
  unfold findIn
  rw [ehd, ok_bind]
  cases hd with
  | none =>
    refine ⟨none, rfl, fun off fileSize => ⟨nofun, ?_⟩⟩
    rintro ⟨count, i, hh, -⟩
    cases (hiff count).mpr hh
  | some count =>
    have hh := (hiff count).mp rfl
    have hcount : ∀ {c}, HeaderOk xs c → c = count := fun h => (h.files.symm.trans hh.files)
    rcases @findFrom_bytesAt xs path hpath count 0 (by have := hh.table; omega) with
      ⟨j, hj, hej, hfirst, e⟩ | ⟨hnone, e⟩
    · refine ⟨_, e, fun off fileSize => entryFile_eq_some.trans ⟨fun h => ?_, ?_⟩⟩
      · exact ⟨count, j, hh, by omega, hej, fun k hk => hfirst k (Nat.zero_le k) hk, h⟩
      · rintro ⟨c, i, -, -, hei, hfirst', h⟩
        obtain rfl : i = j := Nat.le_antisymm (Nat.le_of_not_lt fun hlt => hfirst' j hlt hej)
          (Nat.le_of_not_lt fun hlt => hfirst i (Nat.zero_le i) hlt hei)
        exact h
    · refine ⟨none, e, fun off fileSize => ⟨nofun, ?_⟩⟩
      rintro ⟨c, i, hc, hi, hei, -⟩
      obtain rfl := hcount hc
      exact absurd hei (hnone i (Nat.zero_le i) (by omega))

/-- The module in memory is read as its bytes. -/
theorem findIn_installed {m : Mem} {xs path : List Byte} {start : Nat} {r : Option (Nat × Nat)}
    (hm : Installed m ⟨start, xs.length⟩ xs)
    (e : findIn (bytesAt xs) ⟨start, xs.length⟩ path = .ok r) :
    findIn (moduleByte m ⟨start, xs.length⟩) ⟨start, xs.length⟩ path = .ok r := by
  refine (findIn_congr fun j hj => ?_).trans e
  have h := hm.bytes j _ (List.getElem?_eq_getElem hj)
  rw [Nat.zero_add] at h
  unfold bytesAt
  rw [h, List.getElem?_eq_getElem hj]

/-- A file of an archive that lies in the direct map is found. -/
theorem initramfsFind_file {m : Mem} {xs path : List Byte} {a off n : Nat} (h : HoldsBytes m a xs)
    (hfit : a + xs.length ≤ 0x1000000) (hpath : ∀ b ∈ path, b ≠ 0) (hfile : FileAt xs path off n) :
    initramfsFind m ⟨0xC0000000 + a, xs.length⟩ path = .ok (some (0xC0000000 + a + off, n)) := by
  obtain ⟨r, e, hiff⟩ := @findIn_bytesAt xs path (0xC0000000 + a) (by omega) hpath
  cases (hiff off n).mpr hfile
  obtain ⟨_, _, _, _, _, _, _, hoff, -⟩ := hfile
  unfold initramfsFind
  rw [findIn_installed (installed_at h hfit) e, ok_bind]
  show Except.ok (some ((0xC0000000 + a + off) % 2 ^ 32, n)) = _
  rw [Nat.mod_eq_of_lt (by omega)]

/-- **THE LOOKUP IS CORRECT AND IN BOUNDS**: the archive is read below its size only, the string up
    to its NUL only -- the readers fail beyond -- and the call answers with the file the archive
    holds under this name, if it holds one. -/
theorem initramfsFind_meets (xs path : List Byte) (start : Nat) (hs : start ≠ 0)
    (hpath : ∀ b ∈ path, b ≠ 0) :
    ∃ r, findAt (bytesAt xs) (bytesAt (path ++ [0])) ⟨start, xs.length⟩ = .ok r ∧
      (∀ off fileSize, r = some (off, fileSize) ↔ FileAt xs path off fileSize) ∧
      ∀ m, Installed m ⟨start, xs.length⟩ xs → initramfsFind m ⟨start, xs.length⟩ path =
        .ok (r.map fun f => ((start + f.1) % 2 ^ 32, f.2)) := by
  obtain ⟨r, e, hiff⟩ := @findIn_bytesAt xs path start hs hpath
  have hstring := reads_bytesAt (path ++ [0]) 0 (path ++ [0]).length
  rw [List.drop_zero, List.take_length] at hstring
  refine ⟨r, (findAt_eq hpath hstring).trans e, hiff, fun m hm => ?_⟩
  unfold initramfsFind
  rw [findIn_installed hm e, ok_bind]
  cases r with
  | none => rfl
  | some f => rfl

/-- An archive of one file `/a` with one byte. -/
def oneFile : List Byte :=
  [0x45, 0x4D, 0x58, 0x41] ++ le32 1 ++ (pathField [0x2f, 0x61] ++ (le32 48 ++ le32 1)) ++ [7]

theorem fileAt_oneFile : FileAt oneFile [0x2f, 0x61] 48 1 :=
  ⟨1, 0, ⟨by decide, by decide, by decide, by decide⟩, by decide, by decide, nofun, by decide,
    by decide, by decide⟩

theorem initramfsFind_meets_one : (0xC0100000 : Nat) ≠ 0 ∧ (∀ b ∈ [0x2f, 0x61], b ≠ (0 : Byte)) ∧
    findAt (bytesAt oneFile) (bytesAt ([0x2f, 0x61] ++ [0])) ⟨0xC0100000, oneFile.length⟩ =
      .ok (some (48, 1)) := by
  obtain ⟨r, e, hiff, -⟩ := initramfsFind_meets oneFile [0x2f, 0x61] 0xC0100000 (by decide) (by decide)
  exact ⟨by decide, by decide, e.trans (congrArg Except.ok ((hiff 48 1).mpr fileAt_oneFile))⟩

/-! ## 3. The module `boot_init` publishes -/

section Published

variable {m : Mem} {mbi : MultibootInfo} {mod : BootModule}

/-- A published module starts inside the direct map; its size is the difference of the bounds in
    32 bits. -/
theorem bootInit_published (h : bootInit m mbi = .ok mod) (hs : mod.start ≠ 0) :
    modStart m mbi < 0x1000000 ∧ mod = ⟨0xC0000000 + modStart m mbi,
      (modEnd m mbi + 2 ^ 32 - modStart m mbi) % 2 ^ 32⟩ := by
  unfold bootInit at h
  split at h
  · cases h
    exact absurd rfl hs
  split at h
  · cases h
    exact absurd rfl hs
  obtain ⟨a, ha, h⟩ := bind_ok.mp h
  split at h
  · cases h
    exact absurd rfl hs
  next hv =>
    obtain ⟨b, hb, h⟩ := bind_ok.mp h
    unfold physWord at ha hb
    split at ha
    · split at hb
      · cases ha
        cases hb
        cases h
        rw [vmmPhysToVirt_eq_zero] at hv
        have hlt : rd32 m mbi.modsAddr < 0x1000000 := by omega
        exact ⟨hlt, by rw [vmmPhysToVirt_of_lt hlt]; rfl⟩
      · cases hb
    · cases ha

/-- A module listed inside the direct map that starts inside it is published. -/
theorem bootInit_listed (hf : mbi.flags &&& 8 ≠ 0) (hc : mbi.modsCount ≠ 0)
    (hl : mbi.modsAddr + 8 ≤ 0x1000000) (hs : modStart m mbi < 0x1000000) :
    bootInit m mbi = .ok ⟨0xC0000000 + modStart m mbi,
      (modEnd m mbi + 2 ^ 32 - modStart m mbi) % 2 ^ 32⟩ := by
  have hlist : ¬ vmmPhysToVirt mbi.modsAddr = 0 := by
    rw [vmmPhysToVirt_eq_zero]
    omega
  have hv : vmmPhysToVirt (rd32 m mbi.modsAddr) = 0xC0000000 + modStart m mbi := vmmPhysToVirt_of_lt hs
  have ha : physWord m mbi.modsAddr = .ok (rd32 m mbi.modsAddr) := if_pos (by omega)
  have hb : physWord m (mbi.modsAddr + 4) = .ok (rd32 m (mbi.modsAddr + 4)) := if_pos (by omega)
  unfold bootInit
  rw [if_neg (by omega), if_neg hlist, ha, ok_bind, hv, if_neg (by omega), hb, ok_bind]
  rfl

/-- What the readers of the module rely on: every byte of it is in the direct map, its size is its
    length, and every lookup -- whatever the module then holds -- returns, with a file inside it. -/
structure ModuleAddressable (m : Mem) (mbi : MultibootInfo) (mod : BootModule) : Prop where
  inside : ∀ x, mod.start ≤ x → x < mod.start + mod.size → 0xC0000000 ≤ x ∧ x < 0xC1000000
  ordered : modStart m mbi ≤ modEnd m mbi
  size : mod.size = modEnd m mbi - modStart m mbi
  lookup : ∀ m' path, (∀ b ∈ path, b ≠ 0) → ∃ r, initramfsFind m' mod path = .ok r ∧
    ∀ a n, r = some (a, n) → mod.start ≤ a ∧ a + n ≤ mod.start + mod.size

/-- In the direct map every lookup returns, with a file inside the module. -/
theorem initramfsFind_inside {a size : Nat} (hfit : a + size ≤ 0x1000000) (m : Mem)
    {path : List Byte} (hpath : ∀ b ∈ path, b ≠ 0) :
    ∃ r, initramfsFind m ⟨0xC0000000 + a, size⟩ path = .ok r ∧
      ∀ x n, r = some (x, n) → 0xC0000000 + a ≤ x ∧ x + n ≤ 0xC0000000 + a + size := by
  obtain ⟨xs, hlen, hxs⟩ : ∃ xs : List Byte, xs.length = size ∧ HoldsBytes m a xs :=
    ⟨List.ofFn fun i : Fin size => m (a + i), List.length_ofFn, fun i x hx => by
      obtain ⟨hi, rfl⟩ := List.getElem?_eq_some_iff.mp hx
      rw [List.getElem_ofFn]⟩
  subst hlen
  obtain ⟨r, e, hiff⟩ := @findIn_bytesAt xs path (0xC0000000 + a) (by omega) hpath
  have hin := installed_at hxs hfit
  have hsame : findIn (moduleByte m ⟨0xC0000000 + a, xs.length⟩) ⟨0xC0000000 + a, xs.length⟩ path =
      .ok r := findIn_installed hin e
  unfold initramfsFind
  rw [hsame, ok_bind]
  cases r with
  | none => exact ⟨none, rfl, nofun⟩
  | some f =>
    obtain ⟨off, n⟩ := f
    obtain ⟨_, _, _, _, _, _, _, hoff, hend⟩ := (hiff off n).mp rfl
    refine ⟨_, rfl, fun x k hx => ?_⟩
    cases hx
    dsimp only
    omega

/-- **A PUBLISHED MODULE IS ADDRESSABLE** exactly if its bounds are in order and it ends inside the
    direct map; `boot_init` checks its start only. -/
theorem bootModule_addressable_iff (h : bootInit m mbi = .ok mod) (hs : mod.start ≠ 0) :
    ModuleAddressable m mbi mod ↔ modStart m mbi ≤ modEnd m mbi ∧ modEnd m mbi ≤ 0x1000000 := by
  obtain ⟨hlt, rfl⟩ := bootInit_published h hs
  have hend : modEnd m mbi < 2 ^ 32 := rd32_lt _ _
  constructor
  · intro ha
    refine ⟨ha.ordered, Nat.le_of_not_lt fun hgt => ?_⟩
    -- the last byte of the module is outside
    have hsize := ha.size
    have := ha.inside (0xC0000000 + modEnd m mbi - 1) (by dsimp only; omega)
      (by rw [hsize]; dsimp only; omega)
    omega
  · rintro ⟨hle, hdirect⟩
    have hsize : (modEnd m mbi + 2 ^ 32 - modStart m mbi) % 2 ^ 32 = modEnd m mbi - modStart m mbi := by
      omega
    rw [hsize]
    exact ⟨fun x h1 h2 => by dsimp only at h1 h2; omega, hle, rfl,
      fun m' path hpath => initramfsFind_inside (by omega) m' hpath⟩

end Published

theorem bootInit_moduleMem (ram : MmapEntry) {a b : Nat} (ha : a < 0x1000000) (hb : b < 2 ^ 32) :
    modStart (moduleMem ram a b) moduleInfo = a ∧ modEnd (moduleMem ram a b) moduleInfo = b ∧
    bootInit (moduleMem ram a b) moduleInfo =
      .ok ⟨0xC0000000 + a, (b + 2 ^ 32 - a) % 2 ^ 32⟩ := by
  have hs : modStart (moduleMem ram a b) moduleInfo = a := by
    show rd32 (wr32 _ 0xA004 b) 0xA000 = a
    rw [rd32_wr32_outside (by decide), rd32_wr32]
    omega
  have he : modEnd (moduleMem ram a b) moduleInfo = b := by
    show rd32 (wr32 _ 0xA004 b) (0xA000 + 4) = b
    rw [rd32_wr32]
    omega
  have h := @bootInit_listed (moduleMem ram a b) moduleInfo (by decide) (by decide) (by decide)
    (by rw [hs]; exact ha)
  rw [hs, he] at h
  exact ⟨hs, he, h⟩

/-- A module in the middle of RAM. -/
theorem bootModule_addressable_mid :
    bootInit (moduleMem oddRam 0x120000 0x121000) moduleInfo = .ok ⟨0xC0120000, 0x1000⟩ ∧
    ModuleAddressable (moduleMem oddRam 0x120000 0x121000) moduleInfo ⟨0xC0120000, 0x1000⟩ := by
  obtain ⟨hs, he, h⟩ := bootInit_moduleMem oddRam (show 0x120000 < 0x1000000 by decide)
    (show 0x121000 < 2 ^ 32 by decide)
  exact ⟨h, (bootModule_addressable_iff h (by decide)).mpr ⟨by omega, by omega⟩⟩

/-- A module across the end of the direct map is published though its second page cannot be read;
    one with its bounds reversed is published with almost 4 GiB. -/
theorem bootModule_unaddressable :
    bootInit (moduleMem oddRam 0xFFF000 0x1001000) moduleInfo = .ok ⟨0xC0FFF000, 0x2000⟩ ∧
    bootInit (moduleMem oddRam 0x121000 0x120000) moduleInfo = .ok ⟨0xC0121000, 0xFFFFF000⟩ ∧
    ¬ ModuleAddressable (moduleMem oddRam 0xFFF000 0x1001000) moduleInfo ⟨0xC0FFF000, 0x2000⟩ ∧
    ¬ ModuleAddressable (moduleMem oddRam 0x121000 0x120000) moduleInfo ⟨0xC0121000, 0xFFFFF000⟩ := by
  obtain ⟨_, _, h⟩ := bootInit_moduleMem oddRam (show 0xFFF000 < 0x1000000 by decide)
    (show 0x1001000 < 2 ^ 32 by decide)
  obtain ⟨hs, he, h'⟩ := bootInit_moduleMem oddRam (show 0x121000 < 0x1000000 by decide)
    (show 0x120000 < 2 ^ 32 by decide)
  refine ⟨h, h', fun ha => ?_, fun ha => ?_⟩
  · have := ha.inside 0xC1000000 (by decide) (by decide)
    omega
  · have := ha.ordered
    omega

end Emyx
