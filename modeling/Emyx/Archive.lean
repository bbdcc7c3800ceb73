/-
  File:      Emyx/Archive.lean
  Subject:   THE ARCHIVE FROM THE BUILD TO THE KERNEL: what scripts/mkemxa.py packs, initramfs_find
             finds.

  The script and the kernel share the sizes of header, entry and path by convention only.

  * `mkemxa` -- the script: its checks, its loop with the growing data, its little-endian fields;
  * `entryTable`, `mkemxa_eq` -- the bytes it writes, entry by entry;
  * `pathMatches_field` -- the padded path field matches its own path and no other;
  * **`archive_roundTrip`** -- every packed path is found with the contents of its first pair, no
    other path is found, and every packed path can be copied from user memory and spawned.
-/
import Emyx.Initramfs
import Emyx.Lib.Reads

namespace Emyx

open Lib

/-! ## 1. `mkemxa.py` -/

/-- `struct.pack("<I", v)`, which raises when `v` does not fit. -/
def packU32 (v : Nat) : Option (List Byte) := if v < 2 ^ 32 then some (le32 v) else none

/-- `path + bytes(PATH_SIZE - len(path))` -/
def pathField (path : List Byte) : List Byte := path ++ List.replicate (32 - path.length) 0

/-- One turn of the packing loop, on `archive` and `data`. -/
def packFile (dataOffset : Nat) (st : List Byte × List Byte) (file : List Byte × List Byte) :
    Option (List Byte × List Byte) := do
  let offset ← packU32 (dataOffset + st.2.length)
  let size ← packU32 file.2.length
  return (st.1 ++ pathField file.1 ++ (offset ++ size), st.2 ++ file.2)

/-- `encode("ascii")` succeeds, and the path is short enough. -/
def acceptsPath (path : List Byte) : Bool := path.all (fun b => b.toNat < 0x80) && path.length < 32

/-- `mkemxa.py`: the archive for the pairs of path and contents, `none` when it exits with an
    error. -/
def mkemxa (files : List (List Byte × List Byte)) : Option (List Byte) :=
  if files = [] then none
  else if files.all fun f => acceptsPath f.1 then do
    let count ← packU32 files.length
    let (archive, data) ← files.foldlM (packFile (8 + 40 * files.length))
      ([0x45, 0x4D, 0x58, 0x41] ++ count, [])
    return archive ++ data
  else none

/-- What the script accepts: ASCII paths without NUL of fewer than 32 bytes, and an archive of fewer
    than 2^32 bytes. -/
structure Packable (files : List (List Byte × List Byte)) : Prop where
  some : files ≠ []
  nul : ∀ f ∈ files, ∀ b ∈ f.1, b ≠ 0
  ascii : ∀ f ∈ files, ∀ b ∈ f.1, b.toNat < 0x80
  short : ∀ f ∈ files, f.1.length < 32
  size : 8 + 40 * files.length + (files.flatMap Prod.snd).length < 2 ^ 32

/-- The entries of the files, their data from offset `off` on. -/
def entryTable : Nat → List (List Byte × List Byte) → List Byte
  | _, [] => []
  | off, f :: files =>
    pathField f.1 ++ (le32 off ++ le32 f.2.length) ++ entryTable (off + f.2.length) files

theorem packU32_of_lt {v : Nat} (h : v < 2 ^ 32) : packU32 v = some (le32 v) := if_pos h

@[simp] theorem length_pathField {path : List Byte} (h : path.length < 32) :
    (pathField path).length = 32 := by
  simp [pathField]
  omega

theorem length_entryTable {files : List (List Byte × List Byte)} (h : ∀ f ∈ files, f.1.length < 32)
    (off : Nat) : (entryTable off files).length = 40 * files.length := by
  induction files generalizing off with
  | nil => rfl
  | cons f files ih =>
    simp only [entryTable, List.length_append, length_pathField (h f List.mem_cons_self),
      length_le32, ih fun g hg => h g (List.mem_cons_of_mem _ hg), List.length_cons]
    omega

/-- **The packing loop** writes the entries and gathers the data. -/
theorem packFile_loop (d : Nat) (archive data : List Byte) (files : List (List Byte × List Byte))
    (h : d + data.length + (files.flatMap Prod.snd).length < 2 ^ 32) :
    files.foldlM (packFile d) (archive, data) =
      some (archive ++ entryTable (d + data.length) files, data ++ files.flatMap Prod.snd) := by
  induction files generalizing archive data with
  | nil => simp [entryTable]
  | cons f files ih =>
    simp only [List.flatMap_cons, List.length_append] at h
    have hstep : packFile d (archive, data) f = some (archive ++ pathField f.1 ++
        (le32 (d + data.length) ++ le32 f.2.length), data ++ f.2) := by
      simp [packFile, packU32_of_lt (show d + data.length < 2 ^ 32 by omega),
        packU32_of_lt (show f.2.length < 2 ^ 32 by omega)]
    rw [List.foldlM_cons, hstep, Option.bind_eq_bind, Option.bind_some,
      ih _ _ (by simp only [List.length_append]; omega)]
    simp [entryTable, Nat.add_assoc]

/-- **The archive**: header, entries, data. -/
theorem mkemxa_eq {files : List (List Byte × List Byte)} (h : Packable files) :
    mkemxa files = some ([0x45, 0x4D, 0x58, 0x41] ++ le32 files.length ++
      entryTable (8 + 40 * files.length) files ++ files.flatMap Prod.snd) := by
  have hall : (files.all fun f => acceptsPath f.1) = true := by
    simp only [List.all_eq_true, acceptsPath, Bool.and_eq_true, decide_eq_true_eq]
    exact fun f hf => ⟨h.ascii f hf, h.short f hf⟩
  have hsize := h.size
  have hcount := packU32_of_lt (show files.length < 2 ^ 32 by omega)
  have hloop := packFile_loop (8 + 40 * files.length) ([0x45, 0x4D, 0x58, 0x41] ++ le32 files.length)
    [] files (by simpa using hsize)
  simp only [mkemxa, if_neg h.some, hall, if_true, hcount, Option.bind_eq_bind, Option.bind_some,
    hloop]
  simp

/-! ## 2. Reading it back -/

variable {rd : Nat → Except Stop Byte}

theorem readLe32_le32 {off v : Nat} (h : Reads rd off (le32 v)) (hv : v < 2 ^ 32) :
    readLe32 rd off = .ok v := by
  simp only [le32, reads_cons, Nat.add_assoc] at h
  obtain ⟨h0, h1, h2, h3, _⟩ := h
  simp only [readLe32, h0, h1, h2, h3, ok_bind]
  exact congrArg Except.ok (le32_value hv)

theorem magicMatches_magic (h : Reads rd 0 [0x45, 0x4D, 0x58, 0x41]) :
    magicMatches rd 0x45 0x4D 0x58 0x41 = .ok true := by
  simp only [reads_cons, Nat.zero_add, Nat.reduceAdd] at h
  obtain ⟨h0, h1, h2, h3, _⟩ := h
  simp [magicMatches, h0, h1, h2, h3]

/-- **A padded path matches itself and nothing else.** -/
theorem pathMatches_field {p q : List Byte} {off k : Nat} (hp : ∀ b ∈ p, b ≠ 0) (hq : ∀ b ∈ q, b ≠ 0)
    (h : Reads rd off (p ++ List.replicate (k + 1) 0)) :
    pathMatches rd (p.length + (k + 1)) off q = .ok (decide (q = p)) := by
  induction p generalizing off q with
  | nil =>
    rw [List.nil_append, List.replicate_succ, reads_cons] at h
    cases q with
    | nil => simp [pathMatches, h.1]
    | cons c q =>
      have hc : (0 : Byte) ≠ c := fun e => hq c List.mem_cons_self e.symm
      rw [List.length_nil, Nat.zero_add, pathMatches, h.1, ok_bind, if_pos hc]
      simp [pure, Except.pure]
  | cons a p ih =>
    rw [List.cons_append, reads_cons] at h
    have ha := hp a List.mem_cons_self
    rw [List.length_cons, show p.length + 1 + (k + 1) = p.length + (k + 1) + 1 by omega]
    cases q with
    | nil =>
      rw [pathMatches, h.1, ok_bind, decide_eq_false ha]
      simp [pure, Except.pure]
    | cons c q =>
      rw [pathMatches, h.1, ok_bind]
      by_cases e : a = c
      · subst e
        rw [if_neg (by simp), if_neg ha, ih (fun b hb => hp b (List.mem_cons_of_mem _ hb))
          (fun b hb => hq b (List.mem_cons_of_mem _ hb)) h.2]
        simp
      · rw [if_pos e]
        simp [Ne.symm e, pure, Except.pure]

theorem pathMatches_pathField {p q : List Byte} {off : Nat} (hp : ∀ b ∈ p, b ≠ 0)
    (hlen : p.length < 32) (hq : ∀ b ∈ q, b ≠ 0) (h : Reads rd off (pathField p)) :
    pathMatches rd 32 off q = .ok (decide (q = p)) := by
  obtain ⟨k, hk⟩ : ∃ k, 32 - p.length = k + 1 := ⟨31 - p.length, by omega⟩
  rw [pathField, hk] at h
  have := pathMatches_field hp hq h
  rwa [show p.length + (k + 1) = 32 by omega] at this

/-- What a lookup should answer: nothing for an unknown path, else a place that shows the contents
    of the first pair with that path. -/
def Answers (rd : Nat → Except Stop Byte) (files : List (List Byte × List Byte)) (q : List Byte)
    (r : Except Stop (Option (Nat × Nat))) : Prop :=
  match files.lookup q with
  | none => r = .ok none
  | some contents => ∃ o, r = .ok (some (o, contents.length)) ∧ Reads rd o contents

/-- **The loop of `initramfs_find`** over the entries of the files. -/
theorem findFrom_entryTable {size off i : Nat} {q : List Byte} {files : List (List Byte × List Byte)}
    (hn : ∀ f ∈ files, ∀ b ∈ f.1, b ≠ 0) (hs : ∀ f ∈ files, f.1.length < 32) (hq : ∀ b ∈ q, b ≠ 0)
    (he : Reads rd (8 + i * 40) (entryTable off files)) (hd : Reads rd off (files.flatMap Prod.snd))
    (hfit : off + (files.flatMap Prod.snd).length ≤ size) (hsize : size < 2 ^ 32) :
    Answers rd files q (findFrom rd size q files.length i) := by
  induction files generalizing off i with
  | nil => rfl
  | cons f files ih =>
    obtain ⟨path, contents⟩ := f
    have hp := hs (path, contents) List.mem_cons_self
    simp only [entryTable, List.flatMap_cons, List.length_append, reads_append, length_le32,
      length_pathField hp] at he hd hfit
    obtain ⟨⟨hpath, hoff, hlen⟩, hrest⟩ := he
    have hm := pathMatches_pathField (hn _ List.mem_cons_self) hp hq hpath
    rw [List.length_cons, findFrom, hm, ok_bind]
    by_cases e : q = path
    · -- the first pair with this path
      subst e
      rw [decide_eq_true rfl, if_pos rfl, readLe32_le32 hoff (by omega), ok_bind,
        show 8 + i * 40 + 36 = 8 + i * 40 + 32 + 4 by omega, readLe32_le32 hlen (by omega), ok_bind,
        if_neg (by omega)]
      simp only [Answers, List.lookup_cons_self]
      exact ⟨off, rfl, hd.1⟩
    · have := ih (fun f hf => hn f (List.mem_cons_of_mem _ hf))
        (fun f hf => hs f (List.mem_cons_of_mem _ hf))
        (show Reads rd (8 + (i + 1) * 40) _ by
          rw [show 8 + (i + 1) * 40 = 8 + i * 40 + (32 + (4 + 4)) by omega]
          exact hrest) hd.2 (by omega)
      rw [decide_eq_false e, if_neg (by simp)]
      simpa only [Answers, List.lookup_cons, beq_false_of_ne e] using this

/-- The archive is in place as the boot module, and the kernel can address all of it. -/
structure Installed (m : Mem) (mod : BootModule) (archive : List Byte) : Prop where
  start : mod.start ≠ 0
  size : mod.size = archive.length
  bytes : Reads (moduleByte m mod) 0 archive

/-- **`initramfs_find` on a packed archive.** -/
theorem findIn_archive {files : List (List Byte × List Byte)} {archive : List Byte} {m : Mem}
    {mod : BootModule} {q : List Byte} (hf : Packable files) (ha : mkemxa files = some archive)
    (hi : Installed m mod archive) (hq : ∀ b ∈ q, b ≠ 0) :
    Answers (moduleByte m mod) files q (findIn (moduleByte m mod) mod q) := by
  rw [mkemxa_eq hf] at ha
  obtain rfl := Option.some.inj ha
  have hsize := hi.size
  have hread := hi.bytes
  have hbound := hf.size
  have htab := length_entryTable hf.short (8 + 40 * files.length)
  simp only [List.length_append, length_le32, htab, List.length_cons, List.length_nil] at hsize
  simp only [reads_append, List.length_append, length_le32, htab, List.length_cons, List.length_nil,
    Nat.zero_add, Nat.reduceAdd] at hread
  obtain ⟨⟨⟨hmagic, hcount⟩, hentries⟩, hdata⟩ := hread
  have hheader : initramfsHeader (moduleByte m mod) mod = .ok (some files.length) := by
    have hstart := hi.start
    unfold initramfsHeader
    rw [if_neg (by omega), magicMatches_magic hmagic, ok_bind]
    simp only [Bool.not_true, Bool.false_eq_true, if_false]
    rw [readLe32_le32 hcount (by omega), ok_bind, if_neg (by omega)]
    rfl
  unfold findIn
  rw [hheader, ok_bind]
  exact findFrom_entryTable hf.nul hf.short hq hentries hdata (by omega) (by omega)

/-! ## 3. `copy_string_from_user` -/

/-- The loop of `copy_string_from_user` from index `i` on, with `n` turns left. -/
def copyString (dst src maxLen : Nat) : Nat → Nat → Mem → Int × Mem
  | 0, _, m => (-1, wr8 m (dst + (maxLen - 1)) 0)
  | n + 1, i, m =>
    let m := wr8 m (dst + i) (m (src + i))
    if m (dst + i) = 0 then (if i = 0 then -1 else 0, m) else copyString dst src maxLen n (i + 1) m

/-- `copy_string_from_user`; `0` is `NULL`. -/
def copyStringFromUser (m : Mem) (dst src maxLen : Nat) : Int × Mem :=
  if dst = 0 ∨ src = 0 ∨ maxLen = 0 then (-1, m) else copyString dst src maxLen maxLen 0 m

/-- Memory holds the bytes `xs` at `a`. -/
def HoldsBytes (m : Mem) (a : Nat) (xs : List Byte) : Prop :=
  Reads (fun x => (.ok (m x) : Except Unit Byte)) a xs

@[simp] theorem holdsBytes_cons {m : Mem} {a : Nat} {x : Byte} {xs : List Byte} :
    HoldsBytes m a (x :: xs) ↔ m a = x ∧ HoldsBytes m (a + 1) xs := by
  simp [HoldsBytes]

@[simp] theorem holdsBytes_nil {m : Mem} {a : Nat} : HoldsBytes m a [] := by simp [HoldsBytes]

theorem HoldsBytes.congr {m m' : Mem} {a a' : Nat} {xs : List Byte} (h : HoldsBytes m a xs)
    (hm : ∀ i, i < xs.length → m' (a' + i) = m (a + i)) : HoldsBytes m' a' xs := fun i x hx => by
  have hlt := (List.getElem?_eq_some_iff.mp hx).1
  exact (congrArg Except.ok (hm i hlt)).trans (h i x hx)

theorem HoldsBytes.rd32_le32 {m : Mem} {a v : Nat} (h : HoldsBytes m a (le32 v)) (hv : v < 2 ^ 32) :
    rd32 m a = v := by
  simp only [le32, holdsBytes_cons] at h
  obtain ⟨h0, h1, h2, h3, -⟩ := h
  unfold rd32
  rw [h0, h1, h2, h3]
  exact le32_value hv

/-- The rest of a string is copied, its terminator included. -/
theorem copyString_ok (dst src maxLen : Nat) {rest : List Byte} {n i : Nat} {m : Mem}
    (hne : 0 < i ∨ rest ≠ []) (hn : rest.length < n) (hz : ∀ b ∈ rest, b ≠ 0)
    (h : HoldsBytes m (src + i) (rest ++ [0]))
    (hap : src + i + rest.length < dst + i ∨ dst + i + rest.length < src + i) :
    ∃ m', copyString dst src maxLen n i m = (0, m') ∧ HoldsBytes m' (dst + i) (rest ++ [0]) ∧
      ∀ x, x < dst + i → m' x = m x := by
  induction rest generalizing n i m with
  | nil =>
    obtain ⟨n, rfl⟩ := Nat.exists_eq_succ_of_ne_zero (Nat.pos_iff_ne_zero.mp hn)
    simp only [List.nil_append, holdsBytes_cons, holdsBytes_nil, and_true] at h ⊢
    have hi : i ≠ 0 := Nat.pos_iff_ne_zero.mp (by simpa using hne)
    refine ⟨wr8 m (dst + i) 0, ?_, wr8_self _ _ _, fun x hx => wr8_outside (by omega)⟩
    simp [copyString, h, wr8_self, hi]
  | cons b rest ih =>
    obtain ⟨n, rfl⟩ := Nat.exists_eq_succ_of_ne_zero (show n ≠ 0 by omega)
    simp only [List.cons_append, holdsBytes_cons, List.length_cons] at h hap hn ⊢
    have hb := hz b List.mem_cons_self
    have hrest : HoldsBytes (wr8 m (dst + i) b) (src + (i + 1)) (rest ++ [0]) :=
      (Nat.add_assoc src i 1 ▸ h.2).congr fun j hj => wr8_outside (by
        simp only [List.length_append, List.length_singleton] at hj
        omega)
    obtain ⟨m', e, hm', hkeep⟩ := ih (i := i + 1) (n := n) (Or.inl (Nat.succ_pos i)) (by omega)
      (fun c hc => hz c (List.mem_cons_of_mem _ hc)) hrest (by omega)
    refine ⟨m', ?_, ⟨?_, hm'⟩, fun x hx => ?_⟩
    · simp only [copyString, h.1, wr8_self, if_neg hb]
      exact e
    · rw [hkeep _ (by omega), wr8_self]
    · rw [hkeep _ (by omega), wr8_outside (by omega)]

/-! ## 4. The round trip -/

structure RoundTrip (files : List (List Byte × List Byte)) (m : Mem) (mod : BootModule) : Prop where
  /-- a packed path is found, with the contents of the first pair that has it -/
  found : ∀ p contents, files.lookup p = some contents → ∃ a,
    initramfsFind m mod p = .ok (some (a, contents.length)) ∧
    Reads (fun i => kernelByte m ((a + i) % 2 ^ 32)) 0 contents
  missing : ∀ p, (∀ b ∈ p, b ≠ 0) → p ∉ files.map Prod.fst → initramfsFind m mod p = .ok none
  /-- a packed path passes `sys_spawn`'s copy into an array of 32 bytes -/
  spawnable : ∀ p ∈ files.map Prod.fst, p ≠ [] → ∀ (mem : Mem) (dst src : Nat), dst ≠ 0 → src ≠ 0 →
    (src + p.length + 1 ≤ dst ∨ dst + 32 ≤ src) → HoldsBytes mem src (p ++ [0]) →
    ∃ mem', copyStringFromUser mem dst src 32 = (0, mem') ∧ HoldsBytes mem' dst (p ++ [0])

theorem lookup_eq_none_of_not_mem {files : List (List Byte × List Byte)} {p : List Byte}
    (h : p ∉ files.map Prod.fst) : files.lookup p = none := by
  rw [List.lookup_eq_none_iff]
  intro f hf
  rw [bne_iff_ne]
  exact fun e => h (List.mem_map.mpr ⟨f, hf, e.symm⟩)

theorem mem_of_lookup {files : List (List Byte × List Byte)} {p contents : List Byte}
    (h : files.lookup p = some contents) : (p, contents) ∈ files := by
  obtain ⟨_, _, rfl, _⟩ := List.lookup_eq_some_iff.mp h
  simp

/-- **THE ROUND TRIP**: for all files the script accepts it writes an archive, and wherever that is
    installed the kernel finds the files in it. -/
theorem archive_roundTrip {files : List (List Byte × List Byte)} (hf : Packable files) :
    ∃ archive, mkemxa files = some archive ∧ archive.length < 2 ^ 32 ∧
      ∀ m mod, Installed m mod archive → RoundTrip files m mod := by
  have hlen := length_entryTable hf.short (8 + 40 * files.length)
  have hsize := hf.size
  refine ⟨_, mkemxa_eq hf, ?_, fun m mod hi => ⟨fun p contents hl => ?_, fun p hp hn => ?_,
    fun p hp hne mem dst src hdst hsrc hap hmem => ?_⟩⟩
  · simp only [List.length_append, hlen, length_le32, List.length_cons, List.length_nil]
    omega
  · have hans := findIn_archive hf (mkemxa_eq hf) hi (hf.nul _ (mem_of_lookup hl))
    simp only [Answers, hl] at hans
    obtain ⟨o, ho, hread⟩ := hans
    refine ⟨(mod.start + o) % 2 ^ 32, by simp only [initramfsFind, ho, ok_bind]; rfl, fun i x hx => ?_⟩
    have := hread i x hx
    unfold moduleByte at this
    simp only [Nat.zero_add, Nat.mod_add_mod, Nat.add_assoc]
    exact this
  · have hans := findIn_archive hf (mkemxa_eq hf) hi hp
    simp only [Answers, lookup_eq_none_of_not_mem hn] at hans
    simp only [initramfsFind, hans, ok_bind]
    rfl
  · obtain ⟨f, hmem', rfl⟩ := List.mem_map.mp hp
    have hshort := hf.short f hmem'
    obtain ⟨m', e, hold, _⟩ := copyString_ok dst src 32 (i := 0) (n := 32) (Or.inr hne) hshort
      (hf.nul f hmem') hmem (by omega)
    exact ⟨m', by simp only [copyStringFromUser, hdst, hsrc]; simpa using e, hold⟩

/-- An archive in memory below the end of the direct map is addressable there. -/
theorem installed_at {m : Mem} {a : Nat} {archive : List Byte} (h : HoldsBytes m a archive)
    (hfit : a + archive.length ≤ 0x1000000) :
    Installed m ⟨0xC0000000 + a, archive.length⟩ archive := by
  refine ⟨by simp, rfl, fun i x hx => ?_⟩
  have hlt := (List.getElem?_eq_some_iff.mp hx).1
  have hbyte : m (a + i) = x := Except.ok.inj (h i x hx)
  rw [moduleByte, Nat.zero_add, Nat.mod_eq_of_lt (by simp only; omega), Nat.add_assoc,
    kernelByte_of_lt (by omega), hbyte]

/-- Two pairs with the same path, and an empty file. -/
def someFiles : List (List Byte × List Byte) :=
  [([0x2f, 0x61], [1, 2]), ([0x2f, 0x61, 0x62], []), ([0x2f, 0x61], [3])]

theorem archive_roundTrip_some : ∃ m mod, RoundTrip someFiles m mod := by
  have hf : Packable someFiles :=
    ⟨by decide, by decide, by decide, by decide, by decide⟩
  obtain ⟨archive, hmk, _, h⟩ := archive_roundTrip hf
  have hlen : archive.length = 131 := by
    rw [mkemxa_eq hf] at hmk
    obtain rfl := Option.some.inj hmk
    decide +kernel
  have hold : HoldsBytes (fun x => archive.getD (x - 0x100000) 0) 0x100000 archive := fun i x hx => by
    simp [List.getD, hx]
  exact ⟨_, _, h _ _ (installed_at hold (by omega))⟩

end Emyx
