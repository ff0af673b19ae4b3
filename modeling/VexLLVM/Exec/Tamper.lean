import VexLLVM.Cache.Flush
import VexLLVM.Exec.VexExec

/-!
# Tamper notifications

A write fault on code is noted as one pair of addresses, which the next dispatch
flushes. The flush drops all blocks of the reported mappings exactly when each of
them starts in the window of the pair, which is that of the last report, and when
its code has a function entry. A mapping at offset zero is not flushed at all, and
of two mappings the first is forgotten.
-/

namespace VexLLVM

open StateExcept

/-- The bytes of a block and a mapping have an address in common. -/
def VSB.Meets (x : VSB) (m : Mapping) : Prop :=
  max x.guestAddr.toNat m.offset.toNat <
    min x.endAddr.toNat (m.offset.toNat + m.length.toNat)

instance (x : VSB) (m : Mapping) : Decidable (x.Meets m) := inferInstanceAs (Decidable (_ < _))

def VSB.Short (x : VSB) : Prop :=
  x.endAddr.toNat ≤ x.guestAddr.toNat + MAX_CODE_BYTES.toNat

instance (x : VSB) : Decidable x.Short := inferInstanceAs (Decidable (_ ≤ _))

/-- The block is in one of the caches: as such, or as what a function or compiled code
was made from. -/
def CacheState.HasBlock (c : CacheState) (x : VSB) : Prop :=
  ∃ a, c.cachedVSB a = some x ∨ (∃ f, c.cachedFunc a = some f ∧ f.vsb = x) ∨
    ∃ p, c.cachedFPtr a = some p ∧ p.fn.vsb = x

namespace ExecState

variable {M : Type} (s : ExecState M)

def window : GuestPtr × GuestPtr := (s.toFlush.1 - MAX_CODE_BYTES, s.toFlush.2 + MAX_CODE_BYTES)

def InWindow (a : GuestPtr) : Prop := s.toFlush.1 ≠ 0 ∧ s.window.1 ≤ a ∧ a ≤ s.window.2

instance (a : GuestPtr) : Decidable (s.InWindow a) := inferInstanceAs (Decidable (_ ∧ _))

/-- The flush of the next dispatch can be iterated and reaches the blocks with the
property, wherever they are cached. -/
structure Reaches (B : VSB → Prop) : Prop where
  ends : s.toFlush.1 ≠ 0 → s.cache.vexsb.range s.window.1 s.window.2 ≠ none ∧
    s.cache.func.range s.window.1 s.window.2 ≠ none
  vexsb : ∀ a x, s.cache.cachedVSB a = some x → B x → s.InWindow a
  func : ∀ a f, s.cache.cachedFunc a = some f → B f.vsb → s.InWindow a
  jit : ∀ a p, s.cache.cachedFPtr a = some p → B p.fn.vsb →
    s.InWindow a ∧ s.cache.cachedFunc a ≠ none

/-- The flush of the next dispatch ends, and no block with the property is cached then. -/
def Drops (B : VSB → Prop) : Prop :=
  ∃ t, VexExec.flushPending s = .ok ((), t) ∧ ∀ x, t.cache.HasBlock x → ¬B x

variable {s} {B : VSB → Prop}

theorem flushPending_zero (h : s.toFlush.1 = 0) :
    VexExec.flushPending s = .ok ((), { s with reported := [] }) := by
  unfold VexExec.flushPending
  rw [get_bind, if_neg (not_not.2 h)]
  rfl

theorem flushPending_window (h : s.toFlush.1 ≠ 0) {c : CacheState}
    (hc : VexJITCache.flushRange s.window.1 s.window.2 s.cache = .ok ((), c)) :
    VexExec.flushPending s =
      .ok ((), { s with cache := c, toFlush := (0, 0), reported := [] }) := by
  have hf : VexExec.onCache (VexJITCache.flushRange s.window.1 s.window.2) s =
      .ok ((), { s with cache := c }) := by
    unfold VexExec.onCache
    rw [hc]
  unfold VexExec.flushPending
  rw [get_bind, if_pos h]
  exact bind_ok hf

theorem drops_zero (h : s.toFlush.1 = 0) : s.Drops B ↔ s.Reaches B := by
  constructor
  · rintro ⟨t, ht, hB⟩
    rw [flushPending_zero h] at ht
    cases ht
    exact ⟨fun h0 => absurd h h0, fun a x hx hb => absurd hb (hB x ⟨a, .inl hx⟩),
      fun a f hf hb => absurd hb (hB _ ⟨a, .inr (.inl ⟨f, hf, rfl⟩)⟩),
      fun a p hp hb => absurd hb (hB _ ⟨a, .inr (.inr ⟨p, hp, rfl⟩)⟩)⟩
  · intro hr
    refine ⟨_, flushPending_zero h, ?_⟩
    rintro x ⟨a, hx | ⟨f, hf, rfl⟩ | ⟨p, hp, rfl⟩⟩ hb
    · exact (hr.vexsb a x hx hb).1 h
    · exact (hr.func a f hf hb).1 h
    · exact (hr.jit a p hp hb).1.1 h

/-- The blocks with a property are dropped exactly when the flush reaches them. -/
theorem drops_iff (hs : s.cache.OK) : s.Drops B ↔ s.Reaches B := by
  by_cases h : s.toFlush.1 = 0
  · exact drops_zero h
  have hin : ∀ a, s.InWindow a ↔ s.window.1 ≤ a ∧ a ≤ s.window.2 := fun a => and_iff_right h
  have key : ∀ c, VexJITCache.flushRange s.window.1 s.window.2 s.cache = .ok ((), c) →
      (∀ a, c.cachedVSB a = if s.InWindow a then none else s.cache.cachedVSB a) ∧
      (∀ a, c.cachedFunc a = if s.InWindow a then none else s.cache.cachedFunc a) ∧
      ∀ a, c.cachedFPtr a =
        if s.InWindow a ∧ s.cache.cachedFunc a ≠ none then none else s.cache.cachedFPtr a := by
    intro c hc
    obtain ⟨ok, ks, -, hks, hv⟩ := VexJITCache.flushRange_spec hs hc
    refine ⟨fun a => ?_, fun a => ?_, fun a => ?_⟩
    · rw [ok.cachedVSB, hs.cachedVSB, hv, if_congr (hin a) rfl rfl]
      rfl
    · rw [ok.cachedFunc, hs.cachedFunc, hv, if_congr (hin a) rfl rfl]
      rfl
    · have hk : a ∈ ks ↔ s.InWindow a ∧ s.cache.view.func a ≠ none :=
        (hks a).trans (and_comm.trans (and_congr_left' (hin a).symm))
      rw [ok.cachedFPtr, hs.cachedFPtr, hv, hs.cachedFunc, if_congr hk.symm rfl rfl]
      rfl
  constructor
  · rintro ⟨t, ht, hB⟩
    rcases VexExec.flushPending_spec ht with ⟨h0, -⟩ | ⟨-, c, hc, rfl⟩
    · exact absurd h0 h
    obtain ⟨hv, hf, hj⟩ := key c hc
    refine ⟨fun _ => (flushRange_ok_iff s.cache).1 ⟨c, hc⟩, fun a x hx hb => ?_,
      fun a f hx hb => ?_,
      fun a p hx hb => ?_⟩
    · by_contra hw
      exact hB x ⟨a, .inl (by rw [hv, if_neg hw, hx])⟩ hb
    · by_contra hw
      exact hB _ ⟨a, .inr (.inl ⟨f, by rw [hf, if_neg hw, hx], rfl⟩)⟩ hb
    · by_contra hw
      exact hB _ ⟨a, .inr (.inr ⟨p, by rw [hj, if_neg hw, hx], rfl⟩)⟩ hb
  · intro hr
    obtain ⟨c, hc⟩ := (flushRange_ok_iff s.cache).2 (hr.ends h)
    obtain ⟨hv, hf, hj⟩ := key c hc
    refine ⟨_, flushPending_window h hc, ?_⟩
    rintro x ⟨a, hx | ⟨f, hx, rfl⟩ | ⟨p, hx, rfl⟩⟩ hb
    · rw [hv] at hx
      split at hx
      · cases hx
      · next hw => exact hw (hr.vexsb a x hx hb)
    · rw [hf] at hx
      split at hx
      · cases hx
      · next hw => exact hw (hr.func a f hx hb)
    · rw [hj] at hx
      split at hx
      · cases hx
      · next hw => exact hw (hr.jit a p hx hb)

/-- What is noted for the next dispatch: nothing, or the extent of the mapping that was
reported last. -/
def Noted (s : ExecState M) : Prop :=
  match s.reported with
  | [] => s.toFlush.1 = 0
  | m :: _ => s.toFlush = (m.offset, m.endPtr)

/-- After the flush nothing is noted. -/
theorem flushPending_noted {t : ExecState M} {r : Unit}
    (h : VexExec.flushPending s = .ok (r, t)) : t.reported = [] ∧ t.toFlush.1 = 0 := by
  rcases VexExec.flushPending_spec h with ⟨h0, rfl⟩ | ⟨-, c, -, rfl⟩
  · exact ⟨rfl, h0⟩
  · exact ⟨rfl, rfl⟩

/-- The mappings that were reported share their extent, which is not that of the first
or the last 1024 bytes of memory. -/
structure OneMapping (s : ExecState M) : Prop where
  same : ∀ m ∈ s.reported, ∀ m' ∈ s.reported, m.offset = m'.offset ∧ m.length = m'.length
  low : ∀ m ∈ s.reported, MAX_CODE_BYTES.toNat ≤ m.offset.toNat
  high : ∀ m ∈ s.reported, m.offset.toNat + m.length.toNat + MAX_CODE_BYTES.toNat < 2 ^ 64

end ExecState

namespace ExecRun

variable {M : Type} {gm : GuestMem M} {gen : GenLLVM} {C : ExecState M → BlockRun M → Prop}
  {s : ExecState M}

theorem noted (run : ExecRun gm gen C s) : s.Noted := by
  induction run with
  | start h mem entry => rfl
  | step prev hc h ih =>
      obtain ⟨vsb, u, h₁, h₂⟩ := VexExec.doNextSB_spec h
      obtain ⟨v, c, c', p, mem, hf, -, -, rfl, -⟩ := VexExec.nextSB_spec h₁
      obtain ⟨hr, h0⟩ := ExecState.flushPending_noted hf
      have hu : ∀ d, ExecState.Noted { v with cache := d, mem := mem } := fun d => by
        simp only [ExecState.Noted, hr, h0]
      obtain ⟨ip, w, h₃, ht⟩ := VexExec.runSB_spec h₂
      obtain ⟨p, d, x, -, hx, rfl⟩ := VexExec.doVexSB_spec h₃
      have hw : x.Noted := VexExec.faults_keep ExecState.Noted (hu d) (fun _ _ => rfl) hx
      rcases ht with rfl | ⟨-, rfl⟩ <;> exact hw

end ExecRun

section

variable {M : Type} {gm : GuestMem M} {gen : GenLLVM} {C : ExecState M → BlockRun M → Prop}
  {s : ExecState M}

/-- A short block that meets a mapping away from the ends of memory starts in the
window of the mapping. -/
theorem VSB.Meets.inWindow {x : VSB} {m : Mapping} (h : x.Meets m) (hx : x.Short)
    (lo : MAX_CODE_BYTES.toNat ≤ m.offset.toNat)
    (hi : m.offset.toNat + m.length.toNat + MAX_CODE_BYTES.toNat < 2 ^ 64) :
    m.offset - MAX_CODE_BYTES ≤ x.guestAddr ∧ x.guestAddr ≤ m.endPtr + MAX_CODE_BYTES := by
  unfold VSB.Meets at h
  unfold VSB.Short at hx
  simp only [MAX_CODE_BYTES, Mapping.endPtr] at *
  bv_omega

/-- The window of a single mapping has its ends in order. -/
theorem Mapping.window_le {m : Mapping} (lo : MAX_CODE_BYTES.toNat ≤ m.offset.toNat)
    (hi : m.offset.toNat + m.length.toNat + MAX_CODE_BYTES.toNat < 2 ^ 64) :
    m.offset - MAX_CODE_BYTES ≤ m.endPtr + MAX_CODE_BYTES := by
  simp only [MAX_CODE_BYTES, Mapping.endPtr] at *
  bv_omega

/-- The flush at the head of a dispatch ends, and no block that meets a mapping which
was reported since the last dispatch is cached then. -/
def ExecState.TamperFlushed (s : ExecState M) : Prop :=
  s.Drops fun x => ∃ m ∈ s.reported, x.Meets m

/-- The blocks that are filed are superblocks of their addresses. -/
theorem CacheState.Reachable.guestAddr {c : CacheState} (h : c.Reachable gen) (a : GuestPtr) :
    (∀ x, c.cachedVSB a = some x → x.guestAddr = a) ∧
      (∀ f, c.cachedFunc a = some f → f.vsb.guestAddr = a) ∧
      ∀ p, c.cachedFPtr a = some p → p.fn.vsb.guestAddr = a := by
  rw [h.ok.cachedVSB, h.ok.cachedFunc, h.ok.cachedFPtr]
  exact ⟨fun x hx => (h.inv.vexsb a x hx).1, fun f hf => (h.inv.func a f hf).2.1,
    fun p hp => h.addressed a p hp⟩

/-- One mapping was reported, and all compiled code has a function entry. -/
theorem ExecRun.reaches_of_oneMapping (run : ExecRun gm gen C s)
    (hshort : ∀ x, s.cache.HasBlock x → x.Short) (one : s.OneMapping)
    (filed : ∀ a, s.cache.cachedFPtr a ≠ none → s.cache.cachedFunc a ≠ none) :
    s.Reaches fun x => ∃ m ∈ s.reported, x.Meets m := by
  have noted := run.noted
  unfold ExecState.Noted at noted
  cases hrep : s.reported with
  | nil =>
      rw [hrep] at noted
      refine ⟨fun h0 => absurd noted h0, ?_, ?_, ?_⟩ <;> rintro _ _ _ ⟨m, hm, -⟩ <;> simp at hm
  | cons m₀ l =>
      rw [hrep] at noted
      have hm₀ : m₀ ∈ s.reported := by simp [hrep]
      have h0 : s.toFlush.1 ≠ 0 := by
        have := one.low m₀ hm₀
        rw [noted]
        rintro h
        simp only at h
        simp [h, MAX_CODE_BYTES] at this
      have hwin : s.window = (m₀.offset - MAX_CODE_BYTES, m₀.endPtr + MAX_CODE_BYTES) := by
        rw [ExecState.window, noted]
      rw [← hrep]
      have key : ∀ {x : VSB}, s.cache.HasBlock x → (∃ m ∈ s.reported, x.Meets m) →
          s.InWindow x.guestAddr := by
        rintro x hx ⟨m, hm, hmeet⟩
        obtain ⟨ho, hl⟩ := one.same m hm m₀ hm₀
        have := hmeet.inWindow (hshort x hx) (one.low m hm) (one.high m hm)
        rw [Mapping.endPtr, ho, hl] at this
        exact ⟨h0, by rw [hwin]; exact this⟩
      have haddr := run.reachable.guestAddr
      refine ⟨fun _ => ?_, fun a x hx hB => ?_, fun a f hf hB => ?_, fun a p hp hB => ?_⟩
      · rw [hwin, ← flushRange_ok_iff]
        exact flushRange_ok _ (Mapping.window_le (one.low m₀ hm₀) (one.high m₀ hm₀))
      · rw [← (haddr a).1 x hx]
        exact key ⟨a, .inl hx⟩ hB
      · rw [← (haddr a).2.1 f hf]
        exact key ⟨a, .inr (.inl ⟨f, hf, rfl⟩)⟩ hB
      · refine ⟨?_, filed a (by simp [hp])⟩
        rw [← (haddr a).2.2 p hp]
        exact key ⟨a, .inr (.inr ⟨p, hp, rfl⟩)⟩ hB

/-- Tamper notifications. -/
theorem tampered_flushed (gm : GuestMem M) (gen : GenLLVM) (s : ExecState M)
    (run : ExecRun gm gen AnyBlock s) :
    (s.TamperFlushed ↔ s.Reaches fun x => ∃ m ∈ s.reported, x.Meets m) ∧
      ((∀ x, s.cache.HasBlock x → x.Short) → s.OneMapping →
        (∀ a, s.cache.cachedFPtr a ≠ none → s.cache.cachedFunc a ≠ none) → s.TamperFlushed) :=
  ⟨ExecState.drops_iff run.reachable.ok, fun hshort one filed =>
    (ExecState.drops_iff run.reachable.ok).2 (run.reaches_of_oneMapping hshort one filed)⟩

end

/-- What is checked of a state: the blocks are short, and all compiled code is filed. -/
def ExecState.checkBlocks {M : Type} (s : ExecState M) : Bool :=
  (s.cache.vexsb.map.entries.all fun e => e.2.all fun x => decide x.Short) &&
    (s.cache.func.map.entries.all fun e => e.2.all fun f => decide f.vsb.Short) &&
    s.cache.jit.map.entries.all fun e => e.2.all fun p =>
      decide p.fn.vsb.Short && (s.cache.func.find e.1).isSome

theorem ExecState.checkBlocks_sound {M : Type} {s : ExecState M} (hs : s.cache.OK)
    (h : s.checkBlocks = true) : (∀ x, s.cache.HasBlock x → x.Short) ∧
      ∀ a, s.cache.cachedFPtr a ≠ none → s.cache.cachedFunc a ≠ none := by
  unfold checkBlocks at h
  rw [Bool.and_eq_true, Bool.and_eq_true] at h
  obtain ⟨⟨hv, hf⟩, hj⟩ := h
  have jit : ∀ {a : GuestPtr} {p : FPtr}, s.cache.cachedFPtr a = some p →
      p.fn.vsb.Short ∧ s.cache.cachedFunc a ≠ none := by
    intro a p hp
    rw [hs.cachedFPtr] at hp
    have := AddrCache.find_all (fun a p =>
      decide p.fn.vsb.Short && (s.cache.func.find a).isSome) hj hp
    rw [Bool.and_eq_true, decide_eq_true_eq, Option.isSome_iff_ne_none] at this
    rw [hs.cachedFunc]
    exact this
  refine ⟨?_, fun a ha => ?_⟩
  · rintro x ⟨a, hx | ⟨f, hx, rfl⟩ | ⟨p, hx, rfl⟩⟩
    · rw [hs.cachedVSB] at hx
      simpa using AddrCache.find_all (fun _ x => decide x.Short) hv hx
    · rw [hs.cachedFunc] at hx
      simpa using AddrCache.find_all (fun _ f => decide f.vsb.Short) hf hx
    · exact (jit hx).1
  · obtain ⟨p, hp⟩ := Option.ne_none_iff_exists'.1 ha
    exact (jit hp).2

def faultingRun (addr newIp : GuestPtr) : BlockRun (List Mapping) :=
  ⟨[addr], twoBlocks, newIp, .IGNORE, id, false⟩

def rwxMapping (offset : GuestPtr) (length : BitVec 64) : Mapping :=
  ⟨offset, length, ⟨true, true, true⟩, ⟨true, true, true⟩⟩

theorem tampered_flushed_block : ∃ s, ExecRun (listMem 0) plainGen AnyBlock s ∧
    s.reported ≠ [] ∧ (s.cache.cachedVSB 0x1000).isSome ∧ s.TamperFlushed := by
  obtain ⟨s, run, hs⟩ := ExecRun.exists_of_check (listMem 0) plainGen twoBlocks
    [rwxMapping 0x1000 0x2000] 0x1000 [faultingRun 0x1800 0x3000]
    (fun s => s.reported.map (fun m => (m.offset, m.length)) == [(0x1000, 0x2000)] &&
      (s.cache.cachedVSB 0x1000).isSome && s.checkBlocks) (by decide +kernel)
  rw [Bool.and_eq_true, Bool.and_eq_true, beq_iff_eq] at hs
  obtain ⟨⟨hrep, hv⟩, hb⟩ := hs
  obtain ⟨hshort, hfiled⟩ := ExecState.checkBlocks_sound run.reachable.ok hb
  have hm : ∀ m ∈ s.reported, m.offset = 0x1000 ∧ m.length = 0x2000 := fun m hm => by
    have := List.mem_map_of_mem (f := fun m : Mapping => (m.offset, m.length)) hm
    rw [hrep] at this
    simpa using this
  refine ⟨s, run, by rintro h; simp [h] at hrep, hv,
    (tampered_flushed (listMem 0) plainGen s run).2 hshort ⟨?_, ?_, ?_⟩ hfiled⟩
  · intro m h m' h'
    rw [(hm m h).1, (hm m h).2, (hm m' h').1, (hm m' h').2]
    exact ⟨rfl, rfl⟩
  · intro m h
    rw [(hm m h).1]
    decide
  · intro m h
    rw [(hm m h).1, (hm m h).2]
    decide

/-- A fault in a mapping at offset zero is lost. -/
theorem tampered_not_flushed : ¬∀ (M : Type) (gm : GuestMem M) (gen : GenLLVM) (s : ExecState M),
    ExecRun gm gen AnyBlock s → (∀ x, s.cache.HasBlock x → x.Short) → s.TamperFlushed := by
  intro h
  obtain ⟨s, run, hs⟩ := ExecRun.exists_of_check (listMem 0) plainGen twoBlocks
    [rwxMapping 0 0x10000] 0x1000 [faultingRun 0x1800 0x3000]
    (fun s => decide (s.toFlush.1 = 0) && s.checkBlocks &&
      (s.cache.cachedVSB 0x1000).any fun x : VSB => s.reported.any fun m : Mapping => decide (x.Meets m))
    (by decide +kernel)
  rw [Bool.and_eq_true, Bool.and_eq_true, decide_eq_true_eq, Option.any_eq_true] at hs
  obtain ⟨⟨h0, hb⟩, x, hx, hm⟩ := hs
  rw [List.any_eq_true] at hm
  obtain ⟨m, hm, hmeet⟩ := hm
  have hd := h _ _ _ s run (ExecState.checkBlocks_sound run.reachable.ok hb).1
  exact (((ExecState.drops_iff run.reachable.ok).1 hd).vexsb 0x1000 x hx
    ⟨m, hm, of_decide_eq_true hmeet⟩).1 h0

end VexLLVM
