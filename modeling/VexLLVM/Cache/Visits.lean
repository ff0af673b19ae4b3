import VexLLVM.Cache.Current

/-!
# The addresses a prefetch comes to

`getFPtr` asks for the function of its address, and, where guest addresses are host
addresses, for those of the constant exits of at most two functions. From the state
before the call: `near` is what it can come to whatever it evicts, and `visits` what it
notes where the superblock cache has room for all of `near`.
-/

namespace VexLLVM

open StateExcept VexJITCache

namespace CacheState

variable (s : CacheState) (gen : GenLLVM)

/-- The bodies a function for the address can have: that of the cached function, that of
the cached superblock, and that of the code there now. `getFunc` takes the first. -/
def bodies (q : GuestPtr) : List LLVM.Func :=
  (s.cachedFunc q).toList.map Function.body ++
    ((s.cachedVSB q).toList.map VSB.sb ++ (s.translate gen q q).toOption.join.toList).filterMap
      fun sb => (sb.emit gen).toOption

def exits (q : GuestPtr) : List GuestPtr := (s.bodies gen q).flatMap constReturns

/-- The exits of the function that `getFunc` takes, and that a call for `a` adds. -/
def newExits (a q : GuestPtr) : List GuestPtr :=
  ((s.bodies gen q).head?.elim [] constReturns).filter fun e =>
    e ≠ a && !decide (e ∈ s.jit.map) && !(s.bodies gen e).isEmpty

def near (host : HostPtr) (a : GuestPtr) : List GuestPtr :=
  a :: if host = a then s.exits gen a ++ (s.exits gen a).flatMap (s.exits gen) else []

/-- A second function is gone through only if the first adds no other. -/
def visits (host : HostPtr) (a : GuestPtr) : List GuestPtr :=
  a :: if host = a then
    s.newExits gen a a ++
      match s.newExits gen a a with
      | [e] => s.newExits gen a e
      | _ => []
  else []

/-- No superblock is evicted for those that the call may translate. -/
def HasRoom (host : HostPtr) (a : GuestPtr) : Prop :=
  s.vexsb.size + ((s.near gen host a).toFinset.filter fun q => s.cachedVSB q = none).card ≤
    s.maxCacheEnts

theorem OK.mem_bodies {s : CacheState} {gen : GenLLVM} (hs : s.OK) {q : GuestPtr}
    {b : LLVM.Func} :
    b ∈ s.bodies gen q ↔ (∃ f, s.view.func q = some f ∧ f.body = b) ∨
      (∃ x, s.view.vexsb q = some x ∧ x.sb.emit gen = .ok b) ∨
        ∃ sb, s.translate gen q q = .ok (some sb) ∧ sb.emit gen = .ok b := by
  have hopt : ∀ {e : Except EmitError LLVM.Func}, e.toOption = some b ↔ e = .ok b := fun {e} => by
    cases e <;> simp [Except.toOption]
  have hjoin : ∀ sb, (s.translate gen q q).toOption.join = some sb ↔
      s.translate gen q q = .ok (some sb) := fun sb => by
    cases s.translate gen q q <;> simp [Except.toOption]
  simp only [CacheState.bodies, hs.cachedFunc, hs.cachedVSB, List.mem_append, List.mem_map,
    List.mem_filterMap, Option.mem_toList, hopt, hjoin, or_and_right, exists_or]
  simp

section First

variable {s : CacheState} {gen : GenLLVM} (hs : s.OK) {q : GuestPtr} {b : LLVM.Func}
include hs

theorem OK.head_func {f : Function} (hf : s.view.func q = some f) :
    (s.bodies gen q).head? = some f.body := by
  simp [bodies, hs.cachedFunc, hf]

theorem OK.head_vexsb (hf : s.view.func q = none) {x : VSB} (hx : s.view.vexsb q = some x)
    (hb : x.sb.emit gen = .ok b) : (s.bodies gen q).head? = some b := by
  simp [bodies, hs.cachedFunc, hs.cachedVSB, hf, hx, hb, Except.toOption]

theorem OK.head_translate (hf : s.view.func q = none) (hx : s.view.vexsb q = none) {sb : VexSB}
    (ht : s.translate gen q q = .ok (some sb)) (hb : sb.emit gen = .ok b) :
    (s.bodies gen q).head? = some b := by
  simp [bodies, hs.cachedFunc, hs.cachedVSB, hf, hx, ht, hb, Except.toOption]

theorem OK.bodies_eq_nil (hf : s.view.func q = none) (hx : s.view.vexsb q = none)
    (ht : s.translate gen q q = .ok none) : s.bodies gen q = [] := by
  simp [bodies, hs.cachedFunc, hs.cachedVSB, hf, hx, ht, Except.toOption]

end First

end CacheState

namespace CacheView

variable {v : CacheView} {a q : GuestPtr} {sb : VexSB} {victim : Option GuestPtr}

theorem vexsb_of_alloc {x : VSB} (h : (v.alloc victim a sb).vexsb q = some x) :
    (q = a ∧ x.sb = sb) ∨ v.vexsb q = some x := by
  unfold CacheView.alloc at h
  simp only [Function.update_apply] at h
  split at h
  · next hq =>
      cases h
      exact .inl ⟨hq, rfl⟩
  · cases victim with
    | none => exact .inr h
    | some c => exact .inr (update_none_eq_some h)

theorem func_of_alloc {f : Function} (h : (v.alloc victim a sb).func q = some f) :
    v.func q = some f := by
  cases victim with
  | none => exact h
  | some c => exact update_none_eq_some h

theorem func_of_emit {x : VSB} {body : LLVM.Func} {f : Function}
    (h : (v.emit x body).func q = some f) :
    (q = x.guestAddr ∧ f.body = body) ∨ v.func q = some f := by
  simp only [CacheView.emit, Function.update_apply] at h
  split at h
  · next hq =>
      cases h
      exact .inl ⟨hq, rfl⟩
  · exact .inr h

end CacheView

namespace VexJITCache

variable {gen : GenLLVM}

/-! ## The two rounds -/

/-- A round finds functions, each for an exit, and puts them behind those that wait. -/
structure Round (es : List GuestPtr) (w w' : Fetch) (found : List (GuestPtr × Function)) : Prop where
  complete : w'.complete = w.complete
  workset : w'.workset = w.workset ++ found.map Prod.snd
  fnames : ∀ q, q ∈ w'.fnames ↔ q ∈ w.fnames ∨ ∃ p ∈ found, q = (p.1, p.2.name)
  exit : ∀ p ∈ found, p.1 ∈ es

theorem Round.nil (es : List GuestPtr) (w : Fetch) : Round es w w [] :=
  ⟨rfl, (List.append_nil _).symm, by simp, by simp⟩

theorem Round.append {es : List GuestPtr} {w w' w'' : Fetch} {L L' : List (GuestPtr × Function)}
    (h : Round es w w' L) (h' : Round es w' w'' L') : Round es w w'' (L ++ L') where
  complete := h'.complete.trans h.complete
  workset := by rw [h'.workset, h.workset, List.map_append, List.append_assoc]
  fnames q := by
    simp only [h'.fnames, h.fnames, List.mem_append, or_and_right, exists_or, or_assoc]
  exit p hp := (List.mem_append.1 hp).elim (h.exit p) (h'.exit p)

/-- What each function a round asks for keeps, and what it gives of the functions found. -/
theorem exists_round {I : CacheState → Prop} {K : GuestPtr → Function → Prop} {es : List GuestPtr}
    {w w' : Fetch} {s t : CacheState}
    (hI : ∀ e ∈ es, ∀ u r v, I u → e ∉ u.jit.map → getFunc gen e e u = .ok (r, v) →
      I v ∧ ∀ f, r = some f → K e f)
    (hs : I s) (h : es.foldlM (fetchExit gen) w s = .ok (w', t)) :
    I t ∧ ∃ found, Round es w w' found ∧ ∀ p ∈ found, K p.1 p.2 := by
  have key : ∀ (l : List GuestPtr) (w : Fetch) (s : CacheState), (∀ e ∈ l, e ∈ es) → I s →
      l.foldlM (fetchExit gen) w s = .ok (w', t) →
      I t ∧ ∃ found, Round es w w' found ∧ ∀ p ∈ found, K p.1 p.2 := by
    intro l
    induction l with
    | nil =>
        intro w s _ hs h
        cases h
        exact ⟨hs, [], .nil es w', by simp⟩
    | cons e l ih =>
        intro w s hl hs h
        obtain ⟨w₁, s₁, h₁, h₂⟩ := bind_eq_ok h
        have hrest := ih w₁ s₁ fun c hc => hl c (List.mem_cons_of_mem e hc)
        unfold fetchExit at h₁
        rw [get_bind] at h₁
        split at h₁
        · cases h₁
          exact hrest hs h₂
        · next hm =>
            obtain ⟨r, u, hg, hk⟩ := bind_eq_ok h₁
            obtain ⟨hu, hK⟩ := hI e (hl e List.mem_cons_self) s r u hs hm hg
            cases r with
            | none =>
                cases hk
                exact hrest hu h₂
            | some f =>
                dsimp only at hk
                split at hk
                · cases hk
                  exact hrest hu h₂
                · cases hk
                  obtain ⟨ht, L, hL, hKL⟩ := hrest hu h₂
                  have hone : Round es w
                      { w with fnames := (e, f.name) :: w.fnames, workset := w.workset ++ [f] }
                      [(e, f)] :=
                    ⟨rfl, rfl, fun q => by simp [or_comm], by simpa using hl e List.mem_cons_self⟩
                  refine ⟨ht, (e, f) :: L, hone.append hL, fun p hp => ?_⟩
                  rcases List.mem_cons.1 hp with rfl | hp
                  · exact hK f rfl
                  · exact hKL p hp
  exact key es w s (fun _ => id) hs h

theorem fetchExits_struct {es : List GuestPtr} {w w' : Fetch} {s t : CacheState}
    (h : es.foldlM (fetchExit gen) w s = .ok (w', t)) :
    w'.complete = w.complete ∧ ∃ l, w'.workset = w.workset ++ l := by
  obtain ⟨-, L, hL, -⟩ := exists_round (I := fun _ => True) (K := fun _ _ => True)
    (fun _ _ _ _ _ _ _ _ => ⟨trivial, fun _ _ => trivial⟩) trivial h
  exact ⟨hL.complete, _, hL.workset⟩

/-- The loop goes through the exits of the first function, and through those of a second
where the first has added no other. -/
theorem fetchLoop_rounds {f : Function} {w : Fetch} {s t : CacheState}
    (h : fetchLoop gen 3 ⟨[], [], [f]⟩ s = .ok (w, t)) :
    ∃ w₁ s₁, (getRetAddrs f).foldlM (fetchExit gen) ⟨[], [], [f]⟩ s = .ok (w₁, s₁) ∧
      ((w.fnames = w₁.fnames ∧ t = s₁) ∨ ∃ g w₂, w₁.workset = [f, g] ∧
        (getRetAddrs g).foldlM (fetchExit gen) ⟨w₁.fnames, [f], [g]⟩ s₁ = .ok (w₂, t) ∧
          w.fnames = w₂.fnames) := by
  obtain ⟨w₁, s₁, h₁, k₁⟩ := bind_eq_ok h
  obtain ⟨hc₁, l₁, hw₁⟩ := fetchExits_struct h₁
  refine ⟨w₁, s₁, h₁, ?_⟩
  simp only [hc₁, hw₁, List.singleton_append, List.tail_cons, List.length_cons,
    List.length_nil] at k₁
  split at k₁
  · cases k₁
    exact .inl ⟨rfl, rfl⟩
  · next hle =>
      cases l₁ with
      | nil =>
          cases k₁
          exact .inl ⟨rfl, rfl⟩
      | cons g l =>
          obtain rfl : l = [] := List.eq_nil_of_length_eq_zero (by simp at hle; omega)
          obtain ⟨w₂, s₂, h₂, k₂⟩ := bind_eq_ok k₁
          obtain ⟨hc₂, l₂, hw₂⟩ := fetchExits_struct h₂
          have hts : w.fnames = w₂.fnames ∧ t = s₂ := by
            simp only [hc₂, hw₂, List.singleton_append, List.tail_cons, List.length_cons,
              List.length_nil] at k₂
            split at k₂
            · cases k₂
              exact ⟨rfl, rfl⟩
            · next hle₂ =>
                obtain rfl : l₂ = [] := List.eq_nil_of_length_eq_zero (by omega)
                cases k₂
                exact ⟨rfl, rfl⟩
          exact .inr ⟨g, w₂, hw₁, hts.2 ▸ h₂, hts.1⟩

/-! ## Whatever is evicted -/

section Drawn

variable {s u v : CacheState} {q : GuestPtr}

/-- What `u` holds is what `s` holds, or made from the code of `s`. -/
structure Drawn (gen : GenLLVM) (s u : CacheState) : Prop where
  sOK : s.OK
  ok : u.OK
  inv : u.view.Inv
  code : u.code = s.code
  func : ∀ p f, u.view.func p = some f → f.body ∈ s.bodies gen p
  vexsb : ∀ p x, u.view.vexsb p = some x → ∀ b, x.sb.emit gen = .ok b → b ∈ s.bodies gen p

theorem Drawn.of_le (hs : s.OK) (hu : u.OK) (hv : u.view.Inv) (hc : u.code = s.code)
    (hf : ∀ p f, u.view.func p = some f → s.view.func p = some f)
    (hx : ∀ p x, u.view.vexsb p = some x → s.view.vexsb p = some x) : Drawn gen s u where
  sOK := hs
  ok := hu
  inv := hv
  code := hc
  func p f h := hs.mem_bodies.2 (.inl ⟨f, hf p f h, rfl⟩)
  vexsb p x h _ hb := hs.mem_bodies.2 (.inr (.inl ⟨x, hx p x h, hb⟩))

theorem Drawn.of_view (hs : s.OK) (hv : s.view.Inv) (hu : u.OK) (he : u.view = s.view)
    (hc : u.code = s.code) : Drawn gen s u :=
  .of_le hs hu (he ▸ hv) hc (fun _ _ h => he ▸ h) fun _ _ h => he ▸ h

theorem Drawn.codeAt (h : Drawn gen s u) : u.translate gen q q = s.translate gen q q := by
  simp only [CacheState.translate, h.code]

theorem Drawn.getVSB (h : Drawn gen s u) {r : Option VSB} {w : CacheView}
    (hg : GotVSB gen q q u r w) :
    (∀ p f, w.func p = some f → f.body ∈ s.bodies gen p) ∧
      ∀ p x, w.vexsb p = some x → ∀ b, x.sb.emit gen = .ok b → b ∈ s.bodies gen p := by
  have old := And.intro h.func h.vexsb
  cases hg with
  | found _ => exact old
  | untranslated _ _ => exact old
  | allocated _ ht _ =>
      refine ⟨fun p f hf => h.func p f (CacheView.func_of_alloc hf), fun p x hx b hb => ?_⟩
      rcases CacheView.vexsb_of_alloc hx with ⟨rfl, rfl⟩ | hx
      · exact h.sOK.mem_bodies.2 (.inr (.inr ⟨x.sb, h.codeAt ▸ ht, hb⟩))
      · exact h.vexsb p x hx b hb

theorem Drawn.gotVSB (h : Drawn gen s u) {r : Option VSB}
    (hg : VexJITCache.getVSB gen q q u = .ok (r, v)) : Drawn gen s v where
  sOK := h.sOK
  ok := (getVSB_spec h.ok hg).1
  inv := (getVSB_spec h.ok hg).2.inv h.inv
  code := ((keepsCode_getVSB gen q q).code_eq u r v hg).trans h.code
  func := (h.getVSB (getVSB_spec h.ok hg).2).1
  vexsb := (h.getVSB (getVSB_spec h.ok hg).2).2

theorem Drawn.getFunc (h : Drawn gen s u) {r : Option Function}
    (hg : getFunc gen q q u = .ok (r, v)) :
    Drawn gen s v ∧ ∀ f, r = some f → f.name.addr = q ∧ f.body ∈ s.bodies gen q := by
  obtain ⟨ok, g⟩ := getFunc_spec h.ok hg
  have hv := g.inv h.inv
  have hcode := ((keepsCode_getFunc gen q q).code_eq u r v hg).trans h.code
  have hheld : (∀ p f, v.view.func p = some f → f.body ∈ s.bodies gen p) ∧
      ∀ p x, v.view.vexsb p = some x → ∀ b, x.sb.emit gen = .ok b → b ∈ s.bodies gen p := by
    generalize v.view = w at g
    cases g with
    | found _ => exact ⟨h.func, h.vexsb⟩
    | untranslated _ hx => exact h.getVSB hx
    | emitted _ hx hb =>
        obtain ⟨hfunc, hvexsb⟩ := h.getVSB hx
        obtain ⟨-, hc⟩ := hx.cached h.inv
        refine ⟨fun p f hf => ?_, hvexsb⟩
        rcases CacheView.func_of_emit hf with ⟨rfl, rfl⟩ | hf
        · obtain ⟨rfl, -⟩ := hx.cached h.inv
          exact hvexsb _ _ hc _ hb
        · exact hfunc p f hf
  refine ⟨⟨h.sOK, ok, hv, hcode, hheld.1, hheld.2⟩, fun f hf => ?_⟩
  have hc := (hf ▸ g).cached h.inv
  exact ⟨(hv.func q f hc).1, hheld.1 q f hc⟩

theorem Drawn.getCachedFPtr (h : Drawn gen s u) {a : GuestPtr} {o : Option FPtr}
    (hg : getCachedFPtr a u = .ok (o, v)) : Drawn gen s v where
  sOK := h.sOK
  ok := (getCachedFPtr_spec h.ok a hg).2.2
  inv := (getCachedFPtr_spec h.ok a hg).2.1 ▸ h.inv
  code := ((keepsCode_getCachedFPtr a).code_eq u o v hg).trans h.code
  func p f hf := h.func p f ((getCachedFPtr_spec h.ok a hg).2.1 ▸ hf)
  vexsb p x hx := h.vexsb p x ((getCachedFPtr_spec h.ok a hg).2.1 ▸ hx)

theorem mem_exits {f : Function} {e : GuestPtr} (hf : f.body ∈ s.bodies gen q)
    (he : e ∈ getRetAddrs f) : e ∈ s.exits gen q :=
  List.mem_flatMap.2 ⟨f.body, hf, he⟩

/-- A round, from a function with one of the bodies of `q`. -/
theorem Drawn.round (h : Drawn gen s u) {g : Function} {w w' : Fetch}
    (hg : g.body ∈ s.bodies gen q)
    (hr : (getRetAddrs g).foldlM (fetchExit gen) w u = .ok (w', v)) :
    Drawn gen s v ∧ ∃ found, Round (getRetAddrs g) w w' found ∧ ∀ c ∈ found,
      c.2.name.addr = c.1 ∧ c.2.body ∈ s.bodies gen c.1 ∧ c.1 ∈ s.exits gen q := by
  refine exists_round (K := fun e f => f.name.addr = e ∧ f.body ∈ s.bodies gen e ∧
    e ∈ s.exits gen q) (fun e he x o y hx _ hgot => ?_) h hr
  obtain ⟨hy, hK⟩ := hx.getFunc hgot
  exact ⟨hy, fun f hf => ⟨(hK f hf).1, (hK f hf).2, mem_exits hg he⟩⟩

/-- After a first round, the functions that wait are for exits. -/
theorem Round.exists_waiting {es : List GuestPtr} {f g : Function} {w : Fetch}
    {L : List (GuestPtr × Function)} (hr : Round es ⟨[], [], [f]⟩ w L)
    (hg : g ∈ w.workset.tail) : ∃ e, (e, g) ∈ L := by
  rw [hr.workset, List.singleton_append, List.tail_cons, List.mem_map] at hg
  obtain ⟨⟨e, g⟩, hc, rfl⟩ := hg
  exact ⟨e, hc⟩

theorem mem_near_of_exits {a e : GuestPtr} (h : e ∈ s.exits gen a) : e ∈ s.near gen a a := by
  simp [CacheState.near, h]

theorem mem_near_of_exits_exits {a c e : GuestPtr} (hc : c ∈ s.exits gen a)
    (h : e ∈ s.exits gen c) : e ∈ s.near gen a a := by
  rw [CacheState.near, if_pos rfl, List.mem_cons, List.mem_append, List.mem_flatMap]
  exact .inr (.inr ⟨c, hc, h⟩)

theorem AsksExit.mem {es : List GuestPtr} {w : Fetch} {e : GuestPtr} (h : AsksExit gen es w s e u) :
    e ∈ es := by
  induction h with
  | head _ => exact List.mem_cons_self
  | tail _ _ ih => exact List.mem_cons_of_mem _ ih

/-- After a second round nothing waits. -/
theorem AsksLoop.of_second {f : Function} {l : List Function} {fnames : List (GuestPtr × FnName)}
    {n : ℕ} {e : GuestPtr} (h : AsksLoop gen n ⟨fnames, [f], l⟩ s e u) :
    ∃ g w, g ∈ l ∧ AsksExit gen (getRetAddrs g) w s e u := by
  cases h with
  | here hw hx =>
      cases hw
      exact ⟨_, _, List.mem_cons_self, hx⟩
  | @next _ _ w g l' _ s' _ _ hw hr more rest =>
      exfalso
      cases hw
      have hnil : w.workset.tail = [] := by
        rw [(fetchExits_struct hr).1] at more
        refine List.eq_nil_of_length_eq_zero ?_
        simp only [List.length_cons, List.length_nil] at more
        omega
      rw [hnil] at rest
      cases rest with
      | here hw _ => cases hw
      | next hw _ _ _ => cases hw

/-- What a prefetch asks for is near the address. -/
theorem AsksFPtr.near {host : HostPtr} {a e : GuestPtr} (h : Drawn gen s u)
    (ha : AsksFPtr gen host a u e v) : e ∈ s.near gen host a := by
  obtain ⟨rfl, s₁, f, s₂, h₁, h₂, hloop⟩ := ha
  obtain ⟨hd, hf⟩ := (h.getCachedFPtr h₁).getFunc h₂
  have hbody := (hf f rfl).2
  cases hloop with
  | here hw hx =>
      cases hw
      exact mem_near_of_exits (mem_exits hbody hx.mem)
  | next hw hr more rest =>
      cases hw
      obtain ⟨hd', L, hround, hL⟩ := hd.round hbody hr
      rw [hround.complete] at rest
      obtain ⟨g, w, hg, hx⟩ := rest.of_second
      obtain ⟨c, hc⟩ := hround.exists_waiting hg
      obtain ⟨-, hgb, hce⟩ := hL _ hc
      exact mem_near_of_exits_exits hce (mem_exits hgb hx.mem)

/-- The steps of the first half of `getFPtr`. -/
theorem Fetches.cases {host : HostPtr} {a : GuestPtr} {r : Function × List (GuestPtr × FnName)}
    (h : Fetches gen host a s r u) :
    ∃ s₁ s₂, getCachedFPtr a s = .ok (none, s₁) ∧
      getFunc gen host a s₁ = .ok (some r.1, s₂) ∧
      ((host ≠ a ∧ r.2 = [] ∧ u = s₂) ∨ host = a ∧ ∃ w,
        fetchLoop gen 3 ⟨[], [], [r.1]⟩ s₂ = .ok (w, u) ∧ ∀ q, q ∈ r.2 ↔ q ∈ w.fnames) := by
  obtain ⟨s₁, h₁, h₂⟩ := h
  obtain ⟨o, s₂, h₃, h₄⟩ := bind_eq_ok h₂
  cases o with
  | none => cases h₄
  | some f =>
      obtain ⟨L, s₃, h₅, h₆⟩ := bind_eq_ok h₄
      cases h₆
      refine ⟨s₁, s₂, h₁, h₃, ?_⟩
      unfold fetchExits at h₅
      split at h₅
      · next ha =>
          obtain ⟨w, s₄, h₇, h₈⟩ := bind_eq_ok h₅
          cases h₈
          exact .inr ⟨ha, w, h₇, fun q => by simp⟩
      · next ha =>
          cases h₅
          exact .inl ⟨ha, rfl, rfl⟩

/-- What a prefetch notes is named for an address near the one that is asked for. -/
theorem Fetches.near {host : HostPtr} {a : GuestPtr} {r : Function × List (GuestPtr × FnName)}
    (hs : s.OK) (hv : s.view.Inv) (h : Fetches gen host a s r u) :
    ∀ q ∈ (a, r.1.name) :: r.2, q.2.addr = q.1 ∧ q.1 ∈ s.near gen host a := by
  obtain ⟨s₁, s₂, h₁, h₂, hcase⟩ := h.cases
  have hd₁ : Drawn gen s s₁ := (Drawn.of_view hs hv hs rfl rfl).getCachedFPtr h₁
  have hname : r.1.name.addr = a := by
    obtain ⟨-, g⟩ := getFunc_spec hd₁.ok h₂
    exact ((g.inv hd₁.inv).func a r.1 (g.cached hd₁.inv)).1
  suffices hL : ∀ q ∈ r.2, q.2.addr = q.1 ∧ q.1 ∈ s.near gen host a from
    List.forall_mem_cons.2 ⟨⟨hname, List.mem_cons_self⟩, hL⟩
  rcases hcase with ⟨-, hL, -⟩ | ⟨rfl, w, hw, hL⟩
  · simp [hL]
  · obtain ⟨hd₂, hf⟩ := hd₁.getFunc h₂
    obtain ⟨w₁, s₃, h₃, hrest⟩ := fetchLoop_rounds hw
    obtain ⟨hd₃, L₁, hr₁, hK₁⟩ := hd₂.round (hf r.1 rfl).2 h₃
    have first : ∀ q ∈ w₁.fnames, q.2.addr = q.1 ∧ q.1 ∈ s.near gen host host := by
      intro q hq
      obtain ⟨c, hc, rfl⟩ := ((hr₁.fnames q).1 hq).resolve_left (by simp)
      obtain ⟨hn, -, hx⟩ := hK₁ c hc
      exact ⟨hn, mem_near_of_exits hx⟩
    intro q hq
    rw [hL] at hq
    rcases hrest with ⟨hn, -⟩ | ⟨g, w₂, hws, h₄, hn⟩
    · exact first q (hn ▸ hq)
    · obtain ⟨e, he⟩ := hr₁.exists_waiting (g := g) (by simp [hws])
      obtain ⟨-, hgb, hge⟩ := hK₁ (e, g) he
      obtain ⟨-, L₂, hr₂, hK₂⟩ := hd₃.round hgb h₄
      rw [hn, hr₂.fnames] at hq
      rcases hq with hq | ⟨c, hc, rfl⟩
      · exact first q hq
      · obtain ⟨hn, -, hx⟩ := hK₂ c hc
        exact ⟨hn, mem_near_of_exits_exits hge hx⟩

end Drawn

/-! ## Where nothing is evicted -/

section Adds

variable {host : HostPtr} {q : GuestPtr} {u t : CacheState}

/-- Nothing is lost from `u` to `t`, and no superblock added but for `q`. -/
structure Adds (q : GuestPtr) (u t : CacheState) : Prop where
  jit : t.jit = u.jit
  maxCacheEnts : t.maxCacheEnts = u.maxCacheEnts
  flushed : t.view.flushed = u.view.flushed
  vexsb : ∀ p x, u.view.vexsb p = some x → t.view.vexsb p = some x
  func : ∀ p f, u.view.func p = some f → t.view.func p = some f
  size : t.vexsb.size = u.vexsb.size ∨
    u.view.vexsb q = none ∧ t.view.vexsb q ≠ none ∧ t.vexsb.size ≤ u.vexsb.size + 1

theorem makeRoom_room {r : Unit} (hroom : u.vexsb.size ≠ u.maxCacheEnts)
    (h : makeRoom u = .ok (r, t)) : t = u := by
  unfold makeRoom at h
  rw [get_bind, if_neg hroom] at h
  cases h
  rfl

theorem getVSB_room {r : Option VSB} (hs : u.OK)
    (hroom : u.view.vexsb q = none → u.vexsb.size ≠ u.maxCacheEnts)
    (h : getVSB gen host q u = .ok (r, t)) : t.jit = u.jit ∧ t.maxCacheEnts = u.maxCacheEnts ∧
      (t.vexsb.size = u.vexsb.size ∨
        u.view.vexsb q = none ∧ r ≠ none ∧ t.vexsb.size ≤ u.vexsb.size + 1) := by
  have hsize : (u.vexsb.getCached q).2.size = u.vexsb.size := AddrCache.size_getCached q
  unfold getVSB at h
  rw [bind_ok (getCachedVSB_eq q), hs.vexsb.getCached_fst] at h
  cases hq : u.vexsb.find q with
  | some x =>
      rw [hq] at h
      cases h
      exact ⟨rfl, rfl, .inl hsize⟩
  | none =>
      rw [hq] at h
      obtain ⟨o, u₁, h₁, h₂⟩ := bind_eq_ok h
      rcases xlate_spec h₁ with ⟨rfl, rfl, -⟩ | ⟨sb, -, rfl, rfl⟩
      · cases h₂
        exact ⟨rfl, rfl, .inl hsize⟩
      · obtain ⟨_, u₂, h₃, h₄⟩ := bind_eq_ok h₂
        obtain rfl := makeRoom_room (by simpa [hsize] using hroom hq) h₃
        obtain ⟨_, u₃, h₅, h₆⟩ := bind_eq_ok h₄
        cases h₆
        unfold putVSB at h₅
        rw [get_bind] at h₅
        split at h₅
        · cases h₅
          exact ⟨rfl, rfl, .inr ⟨hq, by simp, hsize ▸ AddrCache.size_put_le q _⟩⟩
        · cases h₅

theorem GotVSB.adds {r : Option VSB} {w : CacheView}
    (hroom : u.view.vexsb q = none → u.vexsb.size ≠ u.maxCacheEnts)
    (h : GotVSB gen host q u r w) : w.flushed = u.view.flushed ∧ w.func = u.view.func ∧
      ∀ p x, u.view.vexsb p = some x → w.vexsb p = some x := by
  cases h with
  | found _ => exact ⟨rfl, rfl, fun _ _ => id⟩
  | untranslated _ _ => exact ⟨rfl, rfl, fun _ _ => id⟩
  | allocated hq _ _ =>
      have hvic : u.victim? = none := if_neg (hroom hq)
      rw [hvic]
      refine ⟨rfl, rfl, fun p x hx => ?_⟩
      have hne : p ≠ q := by
        rintro rfl
        rw [hq] at hx
        cases hx
      exact (Function.update_of_ne hne _ _).trans hx

theorem getFunc_room {r : Option Function} (hs : u.OK)
    (hroom : u.view.vexsb q = none → u.vexsb.size ≠ u.maxCacheEnts)
    (h : getFunc gen host q u = .ok (r, t)) : t.jit = u.jit ∧ t.maxCacheEnts = u.maxCacheEnts ∧
      (t.vexsb.size = u.vexsb.size ∨
        u.view.func q = none ∧ u.view.vexsb q = none ∧ r ≠ none ∧
          t.vexsb.size ≤ u.vexsb.size + 1) := by
  unfold getFunc at h
  rw [bind_ok (getCachedFunc_eq q), hs.func.getCached_fst] at h
  cases hf : u.func.find q with
  | some f =>
      rw [hf] at h
      cases h
      exact ⟨rfl, rfl, .inl rfl⟩
  | none =>
      rw [hf] at h
      obtain ⟨o, u₁, h₁, h₂⟩ := bind_eq_ok h
      have ok₁ : { u with func := (u.func.getCached q).2 }.OK :=
        (getCachedFunc_spec hs q (getCachedFunc_eq q)).2.2.1
      obtain ⟨hj, hm, hsz⟩ := getVSB_room ok₁ hroom h₁
      cases o with
      | none =>
          cases h₂
          exact ⟨hj, hm, .inl (hsz.resolve_right fun h => h.2.1 rfl)⟩
      | some vsb =>
          obtain ⟨f, h₃, rfl⟩ := map_eq_ok h₂
          unfold genFunctionByVSB at h₃
          cases he : vsb.sb.emit gen with
          | error e =>
              rw [he] at h₃
              cases h₃
          | ok body =>
              rw [he] at h₃
              cases h₃
              exact ⟨hj, hm, hsz.imp_right fun h => ⟨hf, h.1, by simp, h.2.2⟩⟩

theorem getFunc_adds {r : Option Function} (hs : u.OK) (hv : u.view.Inv)
    (hroom : u.view.vexsb q = none → u.vexsb.size ≠ u.maxCacheEnts)
    (h : getFunc gen host q u = .ok (r, t)) : Adds q u t := by
  obtain ⟨hj, hm, hsize⟩ := getFunc_room hs hroom h
  obtain ⟨-, g⟩ := getFunc_spec hs h
  generalize hw : t.view = w at g
  cases g with
  | found hf =>
      refine ⟨hj, hm, by rw [hw], by simp [hw], by simp [hw], .inl ?_⟩
      refine hsize.resolve_right fun hn => ?_
      rw [hf] at hn
      cases hn.1
  | untranslated hf hx =>
      obtain ⟨hfl, hfu, hle⟩ := hx.adds hroom
      refine ⟨hj, hm, hw ▸ hfl, fun p x hp => hw ▸ hle p x hp, fun p f hp => ?_,
        .inl (hsize.resolve_right fun hn => hn.2.2.1 rfl)⟩
      rw [hw, hfu]
      exact hp
  | @emitted v vsb body hf hx hb =>
      obtain ⟨hfl, hfu, hle⟩ := hx.adds hroom
      obtain ⟨rfl, hc⟩ := hx.cached hv
      refine ⟨hj, hm, hw ▸ hfl, fun p x hp => hw ▸ hle p x hp, fun p f hp => ?_,
        hsize.imp_right fun hn => ⟨hn.2.1, ?_, hn.2.2.2⟩⟩
      · have hne : p ≠ vsb.guestAddr := by
          rintro rfl
          rw [hf] at hp
          cases hp
        rw [hw]
        exact (Function.update_of_ne hne _ _).trans (hfu ▸ hp)
      · rw [hw, show (v.emit vsb body).vexsb = v.vexsb from rfl, hc]
        simp

end Adds

end VexJITCache

structure CacheView.Distinct (v : CacheView) : Prop where
  old : ∀ a f, v.func a = some f → f.uid < v.next
  inj : ∀ a b f g, v.func a = some f → v.func b = some g → f.uid = g.uid → a = b

namespace CacheView.Distinct

theorem init (code : HostPtr → GuestPtr → Option Vex.IRSB) (rand : ℕ → ℕ) :
    (CacheState.init code rand).view.Distinct where
  old _ _ h := by cases h
  inj _ _ _ _ h := by cases h

variable {v w : CacheView}

theorem mono (h : v.Distinct) (hf : ∀ a f, w.func a = some f → v.func a = some f)
    (hn : v.next ≤ w.next) : w.Distinct where
  old a f ha := (h.old a f (hf a f ha)).trans_le hn
  inj a b f g ha hb := h.inj a b f g (hf a f ha) (hf b g hb)

theorem evict_next (v : CacheView) (a : GuestPtr) : (v.evict a).next = v.next := by
  cases hf : v.func a <;> simp [CacheView.evict, CacheView.release, hf]

theorem evict (h : v.Distinct) (a : GuestPtr) : (v.evict a).Distinct :=
  h.mono (fun _ _ hb => update_none_eq_some hb) (evict_next v a).ge

theorem alloc (h : v.Distinct) (victim : Option GuestPtr) (a : GuestPtr) (sb : VexSB) :
    (v.alloc victim a sb).Distinct := by
  refine h.mono (fun _ _ hb => func_of_alloc hb) ?_
  cases victim with
  | none => exact Nat.le_succ _
  | some c => exact (Nat.le_succ v.next).trans (evict_next { v with next := v.next + 1 } c).ge

theorem emit (h : v.Distinct) (x : VSB) (body : LLVM.Func) : (v.emit x body).Distinct := by
  have cases_on : ∀ a f, (v.emit x body).func a = some f →
      (a = x.guestAddr ∧ f.uid = v.next) ∨ (v.func a = some f ∧ f.uid < v.next) := by
    intro a f ha
    simp only [CacheView.emit, Function.update_apply] at ha
    split at ha
    · next hq =>
        cases ha
        exact .inl ⟨hq, rfl⟩
    · exact .inr ⟨ha, h.old a f ha⟩
  refine ⟨fun a f ha => ?_, fun a b f g ha hb he => ?_⟩
  · rcases cases_on a f ha with ⟨-, hf⟩ | ⟨-, hf⟩
    · exact hf ▸ Nat.lt_succ_self _
    · exact Nat.lt_succ_of_lt hf
  · rcases cases_on a f ha with ⟨rfl, hf⟩ | ⟨ha, hf⟩ <;>
      rcases cases_on b g hb with ⟨rfl, hg⟩ | ⟨hb, hg⟩
    · rfl
    · omega
    · omega
    · exact h.inj a b f g ha hb he

end CacheView.Distinct

theorem kept_distinct (gen : GenLLVM) : Kept gen CacheView.Distinct where
  alloc _ h _ _ := h.alloc _ _ _
  emit _ h _ _ _ := h.emit _ _
  evict a _ h := h.evict a
  flush _ h := h.mono (fun _ _ ha => by cases ha) le_rfl
  flushRange {v b e ks} _ h _ _ := by
    obtain ⟨-, hf, -, -, hn⟩ := CacheView.foldl_release (ks.filterMap v.func) v
    refine h.mono (fun a f ha => ?_) (show v.next ≤ CacheView.next (List.foldl _ _ _) from hn.ge)
    simp only [CacheView.flushRange, CacheView.flushFuncs] at ha
    split at ha
    · cases ha
    · exact ha

namespace VexJITCache

section Grown

variable {gen : GenLLVM} {a q : GuestPtr} {s u t : CacheState}

/-- The addresses near `a` that have a superblock in `u` and none in `s`. -/
def added (gen : GenLLVM) (a : GuestPtr) (s u : CacheState) : Finset GuestPtr :=
  (s.near gen a a).toFinset.filter fun p => s.view.vexsb p = none ∧ u.view.vexsb p ≠ none

theorem mem_added {p : GuestPtr} : p ∈ added gen a s u ↔
    p ∈ s.near gen a a ∧ s.view.vexsb p = none ∧ u.view.vexsb p ≠ none := by
  simp [added]

/-- `u` holds what `s` holds, and what `getFunc` has added for addresses near `a`. -/
structure Grown (gen : GenLLVM) (a : GuestPtr) (s u : CacheState) : Prop
    extends Drawn gen s u where
  distinct : u.view.Distinct
  flushed : u.view.flushed = s.view.flushed
  jitMap : u.jit.map = s.jit.map
  maxCacheEnts : u.maxCacheEnts = s.maxCacheEnts
  vexsb_le : ∀ p x, s.view.vexsb p = some x → u.view.vexsb p = some x
  func_le : ∀ p f, s.view.func p = some f → u.view.func p = some f
  first : ∀ p f, u.view.func p = some f → (s.bodies gen p).head? = some f.body
  firstVSB : ∀ p x, u.view.vexsb p = some x → s.view.func p = none →
    ∀ b, x.sb.emit gen = .ok b → (s.bodies gen p).head? = some b
  size : u.vexsb.size ≤ s.vexsb.size + (added gen a s u).card

theorem Grown.unheld (h : Grown gen a s u) (hn : u.view.vexsb q = none) :
    s.view.vexsb q = none := by
  cases hx : s.view.vexsb q with
  | none => rfl
  | some x => exact (h.vexsb_le q x hx).symm.trans hn

/-- An address near `a` that has no superblock yet leaves the cache room for one. -/
theorem Grown.room (h : Grown gen a s u) (hr : s.HasRoom gen a a) (hq : q ∈ s.near gen a a)
    (hn : u.view.vexsb q = none) : u.vexsb.size ≠ u.maxCacheEnts := by
  have hlt : (added gen a s u).card <
      ((s.near gen a a).toFinset.filter fun p => s.cachedVSB p = none).card := by
    refine Finset.card_lt_card ((Finset.ssubset_iff_of_subset fun p hp => ?_).2 ⟨q, ?_, fun hq' => ?_⟩)
    · rw [mem_added] at hp
      simp [h.sOK.cachedVSB, hp]
    · simp [h.sOK.cachedVSB, hq, h.unheld hn]
    · exact (mem_added.1 hq').2.2 hn
  have hle := h.size
  unfold CacheState.HasRoom at hr
  rw [h.maxCacheEnts]
  omega

theorem Grown.unfiled (h : Grown gen a s u) (hn : u.view.func q = none) :
    s.view.func q = none := by
  cases hf : s.view.func q with
  | none => rfl
  | some f => exact (h.func_le q f hf).symm.trans hn

/-- What a superblock emits that `getVSB` leaves is the first body of its address. -/
theorem Grown.getVSB (h : Grown gen a s u) {r : Option VSB} {w : CacheView}
    (hg : GotVSB gen q q u r w) {p : GuestPtr} {x : VSB} {b : LLVM.Func}
    (hx : w.vexsb p = some x) (hf : s.view.func p = none) (hb : x.sb.emit gen = .ok b) :
    (s.bodies gen p).head? = some b := by
  cases hg with
  | found _ => exact h.firstVSB p x hx hf b hb
  | untranslated _ _ => exact h.firstVSB p x hx hf b hb
  | allocated hn ht _ =>
      rcases CacheView.vexsb_of_alloc hx with ⟨rfl, rfl⟩ | hx
      · exact h.sOK.head_translate hf (h.unheld hn) (h.codeAt ▸ ht) hb
      · exact h.firstVSB p x hx hf b hb

/-- A function that is asked for is added, and the first body it can have is its own. -/
theorem Grown.getFunc (h : Grown gen a s u) (hr : s.HasRoom gen a a) (hq : q ∈ s.near gen a a)
    {r : Option Function} (hg : getFunc gen q q u = .ok (r, t)) :
    Grown gen a s t ∧ Adds q u t ∧ (∀ f, r = some f → t.view.func q = some f) ∧
      (r = none → s.bodies gen q = []) := by
  have hadd := getFunc_adds h.ok h.inv (fun hn => h.room hr hq hn) hg
  obtain ⟨ok, g⟩ := getFunc_spec h.ok hg
  have hdrawn := (h.toDrawn.getFunc hg).1
  have hfirst : (∀ p f, t.view.func p = some f → (s.bodies gen p).head? = some f.body) ∧
      (∀ p x, t.view.vexsb p = some x → s.view.func p = none →
        ∀ b, x.sb.emit gen = .ok b → (s.bodies gen p).head? = some b) ∧
      (r = none → s.bodies gen q = []) := by
    generalize t.view = w at g
    cases g with
    | found _ => exact ⟨h.first, h.firstVSB, fun hn => by cases hn⟩
    | untranslated hf hx =>
        refine ⟨fun p f hp => ?_, fun p x hp hs b hb => h.getVSB hx hp hs hb, fun _ => ?_⟩
        · cases hx
          exact h.first p f hp
        · cases hx with
          | untranslated hn ht =>
              exact h.sOK.bodies_eq_nil (h.unfiled hf) (h.unheld hn) (h.codeAt ▸ ht)
    | emitted hf hx hb =>
        refine ⟨fun p f hp => ?_, fun p x hp hs b hb => h.getVSB hx hp hs hb, fun hn => by cases hn⟩
        obtain ⟨rfl, hc⟩ := hx.cached h.inv
        rcases CacheView.func_of_emit hp with ⟨rfl, rfl⟩ | hold
        · exact h.getVSB hx hc (h.unfiled hf) hb
        · cases hx with
          | found _ => exact h.first p f hold
          | allocated _ _ _ => exact h.first p f (CacheView.func_of_alloc hold)
  have hsize : t.vexsb.size ≤ s.vexsb.size + (added gen a s t).card := by
    have hle := h.size
    have hsub : added gen a s u ⊆ added gen a s t := fun p hp => by
      rw [mem_added] at hp ⊢
      obtain ⟨x, hx⟩ := Option.ne_none_iff_exists'.1 hp.2.2
      exact ⟨hp.1, hp.2.1, by simp [hadd.vexsb p x hx]⟩
    rcases hadd.size with heq | ⟨hn, hne, hsz⟩
    · have := Finset.card_le_card hsub
      omega
    · have hlt : (added gen a s u).card < (added gen a s t).card := by
        refine Finset.card_lt_card ((Finset.ssubset_iff_of_subset hsub).2 ⟨q, ?_, fun hq' => ?_⟩)
        · exact mem_added.2 ⟨hq, h.unheld hn, hne⟩
        · exact (mem_added.1 hq').2.2 hn
      omega
  exact ⟨⟨hdrawn, g.kept (kept_distinct gen).toKeptByGet h.inv h.distinct,
    hadd.flushed.trans h.flushed, by rw [hadd.jit, h.jitMap], hadd.maxCacheEnts.trans h.maxCacheEnts,
    fun p x hx => hadd.vexsb p x (h.vexsb_le p x hx), fun p f hf => hadd.func p f (h.func_le p f hf),
    hfirst.1, hfirst.2.1, hsize⟩, hadd, fun f hf => (hf ▸ g).cached h.inv, hfirst.2.2⟩

/-- An exit that is asked for is passed over, or its function is there afterwards. -/
theorem Grown.fetchExit (hr : s.HasRoom gen a a) (hq : q ∈ s.near gen a a) {w w' : Fetch}
    (h : Grown gen a s u) (hw : ∀ g ∈ w.workset ++ w.complete, ∃ p, u.view.func p = some g)
    (hx : fetchExit gen w q u = .ok (w', t)) :
    Grown gen a s t ∧ (∀ p f, u.view.func p = some f → t.view.func p = some f) ∧
      (∀ g ∈ w'.workset ++ w'.complete, ∃ p, t.view.func p = some g) ∧
      (∀ g ∈ w.workset ++ w.complete, g ∈ w'.workset ++ w'.complete) ∧
      (q ∉ s.jit.map → s.bodies gen q ≠ [] →
        ∃ g ∈ w'.workset ++ w'.complete, t.view.func q = some g) := by
  unfold VexJITCache.fetchExit at hx
  rw [get_bind] at hx
  split at hx
  · next hm =>
      cases hx
      exact ⟨h, fun _ _ => id, hw, fun _ => id, fun hn => absurd (h.jitMap ▸ hm) hn⟩
  · obtain ⟨r, v, hg, hk⟩ := bind_eq_ok hx
    obtain ⟨hv, hadd, hc, hnone⟩ := h.getFunc hr hq hg
    have hold : ∀ g ∈ w.workset ++ w.complete, ∃ p, v.view.func p = some g := fun g hgw => by
      obtain ⟨p, hp⟩ := hw g hgw
      exact ⟨p, hadd.func p g hp⟩
    cases r with
    | none =>
        cases hk
        exact ⟨hv, hadd.func, hold, fun _ => id, fun _ hb => absurd (hnone rfl) hb⟩
    | some f =>
        have hcf := hc f rfl
        dsimp only at hk
        split at hk
        · next hmem =>
            cases hk
            refine ⟨hv, hadd.func, hold, fun _ => id, fun _ _ => ?_⟩
            simp only [hasFn, Bool.or_eq_true, List.any_eq_true, beq_iff_eq] at hmem
            obtain ⟨g, hgw, hu⟩ : ∃ g ∈ w.workset ++ w.complete, g.uid = f.uid := by
              rcases hmem with ⟨g, hgw, hu⟩ | ⟨g, hgw, hu⟩
              · exact ⟨g, List.mem_append_left _ hgw, hu⟩
              · exact ⟨g, List.mem_append_right _ hgw, hu⟩
            obtain ⟨p, hp⟩ := hold g hgw
            obtain rfl := hv.distinct.inj p q g f hp hcf hu
            exact ⟨g, hgw, hp⟩
        · cases hk
          have hsub : ∀ g ∈ w.workset ++ w.complete, g ∈ w.workset ++ [f] ++ w.complete :=
            fun g hgw => by
              rcases List.mem_append.1 hgw with hg | hg <;> simp [hg]
          refine ⟨hv, hadd.func, fun g hgw => ?_, hsub, fun _ _ => ⟨f, by simp, hcf⟩⟩
          rcases List.mem_append.1 hgw with hg | hg
          · rcases List.mem_append.1 hg with hg | hg
            · exact hold g (List.mem_append_left _ hg)
            · exact ⟨q, List.mem_singleton.1 hg ▸ hcf⟩
          · exact hold g (List.mem_append_right _ hg)

/-- After a round the function of each exit that is new is among those gone through or
waiting. -/
theorem Grown.round (hr : s.HasRoom gen a a) {es : List GuestPtr}
    (hes : ∀ e ∈ es, e ∈ s.near gen a a) {w w' : Fetch} (h : Grown gen a s u)
    (hw : ∀ g ∈ w.workset ++ w.complete, ∃ p, u.view.func p = some g)
    (hf : es.foldlM (VexJITCache.fetchExit gen) w u = .ok (w', t)) :
    Grown gen a s t ∧ (∀ p f, u.view.func p = some f → t.view.func p = some f) ∧
      (∀ g ∈ w'.workset ++ w'.complete, ∃ p, t.view.func p = some g) ∧
      (∀ g ∈ w.workset ++ w.complete, g ∈ w'.workset ++ w'.complete) ∧
      ∀ e ∈ es, e ∉ s.jit.map → s.bodies gen e ≠ [] →
        ∃ g ∈ w'.workset ++ w'.complete, t.view.func e = some g := by
  induction es generalizing w u with
  | nil =>
      cases hf
      exact ⟨h, fun _ _ => id, hw, fun _ => id, by simp⟩
  | cons e es ih =>
      obtain ⟨w₁, u₁, h₁, h₂⟩ := bind_eq_ok hf
      obtain ⟨hg₁, hle₁, hw₁, hsub₁, hnew₁⟩ := h.fetchExit hr (hes e List.mem_cons_self) hw h₁
      obtain ⟨hg₂, hle₂, hw₂, hsub₂, hnew₂⟩ :=
        ih (fun c hc => hes c (List.mem_cons_of_mem e hc)) hg₁ hw₁ h₂
      refine ⟨hg₂, fun p f hp => hle₂ p f (hle₁ p f hp), hw₂, fun g hg => hsub₂ g (hsub₁ g hg),
        List.forall_mem_cons.2 ⟨fun hm hb => ?_, hnew₂⟩⟩
      obtain ⟨g, hg, hc⟩ := hnew₁ hm hb
      exact ⟨g, hsub₂ g hg, hle₂ e g hc⟩

theorem Grown.of_view (hs : s.OK) (hv : s.view.Inv) (hd : s.view.Distinct) (hu : u.OK)
    (he : u.view = s.view) (hc : u.code = s.code) (hj : u.jit.map = s.jit.map)
    (hm : u.maxCacheEnts = s.maxCacheEnts) (hx : u.vexsb = s.vexsb) : Grown gen a s u where
  toDrawn := .of_view hs hv hu he hc
  distinct := he ▸ hd
  flushed := by rw [he]
  jitMap := hj
  maxCacheEnts := hm
  vexsb_le _ _ h := he ▸ h
  func_le _ _ h := he ▸ h
  first _ _ h := hs.head_func (he ▸ h)
  firstVSB _ _ h hf _ hb := hs.head_vexsb hf (he ▸ h) hb
  size := by
    rw [hx]
    exact Nat.le_add_right _ _

end Grown

section Visits

variable {gen : GenLLVM} {host : HostPtr} {a q e : GuestPtr} {s u : CacheState}

theorem nodup_constReturns (body : LLVM.Func) : (constReturns body).Nodup :=
  (List.perm_insertionSort _ _).nodup_iff.2 (List.nodup_dedup _)

theorem mem_newExits : e ∈ s.newExits gen a q ↔ (∃ b, (s.bodies gen q).head? = some b ∧
    e ∈ constReturns b) ∧ e ≠ a ∧ e ∉ s.jit.map ∧ s.bodies gen e ≠ [] := by
  cases hb : (s.bodies gen q).head? with
  | none => simp [CacheState.newExits, hb]
  | some b => simp [CacheState.newExits, hb, and_assoc]

theorem newExits_eq_singleton (hq : e ∈ s.newExits gen a q)
    (hall : ∀ c ∈ s.newExits gen a q, c = e) : s.newExits gen a q = [e] := by
  have hnodup : (s.newExits gen a q).Nodup := by
    refine List.Nodup.filter _ ?_
    cases (s.bodies gen q).head? with
    | none => exact List.nodup_nil
    | some b => exact nodup_constReturns b
  generalize s.newExits gen a q = l at hq hall hnodup
  cases l with
  | nil => cases hq
  | cons c l =>
      obtain rfl := hall c List.mem_cons_self
      cases l with
      | nil => rfl
      | cons d l =>
          obtain rfl := hall d (by simp)
          simp at hnodup

theorem getCachedFPtr_state {o : Option FPtr} (h : getCachedFPtr a s = .ok (o, u)) :
    u.code = s.code ∧ u.jit.map = s.jit.map ∧ u.maxCacheEnts = s.maxCacheEnts ∧
      u.vexsb = s.vexsb := by
  cases h
  exact ⟨rfl, AddrCache.getCached_map a, rfl, rfl⟩

theorem mem_exits_of_newExits (h : e ∈ s.newExits gen a q) : e ∈ s.exits gen q := by
  obtain ⟨⟨b, hb, he⟩, -⟩ := mem_newExits.1 h
  exact List.mem_flatMap.2 ⟨b, List.mem_of_head? hb, he⟩

theorem mem_visits_first (h : e = a ∨ e ∈ s.newExits gen a a) : e ∈ s.visits gen a a := by
  rcases h with rfl | h
  · exact List.mem_cons_self
  · simp [CacheState.visits, h]

theorem mem_visits_second (h : s.newExits gen a a = [q]) (he : e ∈ s.newExits gen a q) :
    e ∈ s.visits gen a a := by
  simp only [CacheState.visits, if_pos, h, List.mem_cons, List.mem_append]
  exact .inr (.inr he)

section Second

variable {t : CacheState} {f g : Function} {w w' : Fetch}

/-- A round from the first function that `q` can have finds what is new. -/
theorem Grown.found (h : Grown gen a s u) (hr : s.HasRoom gen a a)
    (hg : (s.bodies gen q).head? = some g.body) (hnear : ∀ e ∈ getRetAddrs g, e ∈ s.near gen a a)
    (hf : (getRetAddrs g).foldlM (VexJITCache.fetchExit gen) w u = .ok (w', t)) :
    Grown gen a s t ∧ ∃ found, Round (getRetAddrs g) w w' found ∧ ∀ c ∈ found,
      c.2.name.addr = c.1 ∧ (s.bodies gen c.1).head? = some c.2.body ∧
        (c.1 = a ∨ c.1 ∈ s.newExits gen a q) := by
  refine exists_round (K := fun e f => f.name.addr = e ∧ (s.bodies gen e).head? = some f.body ∧
    (e = a ∨ e ∈ s.newExits gen a q)) (fun e he x o v hx hm hgot => ?_) h hf
  obtain ⟨hv, -, hc, -⟩ := hx.getFunc hr (hnear e he) hgot
  refine ⟨hv, fun f hf => ?_⟩
  have hfirst := hv.first e f (hc f hf)
  refine ⟨(hv.inv.func e f (hc f hf)).1, hfirst, or_iff_not_imp_left.2 fun hne => ?_⟩
  refine mem_newExits.2 ⟨⟨g.body, hg, he⟩, hne, hx.jitMap ▸ hm, fun hnil => ?_⟩
  rw [hnil] at hfirst
  cases hfirst

/-- Where just one function waits after the first round, there is just one new exit. -/
theorem Grown.newExits_eq (h : Grown gen a s u) (hr : s.HasRoom gen a a)
    (hfunc : u.view.func a = some f) (hnear : ∀ e ∈ getRetAddrs f, e ∈ s.near gen a a)
    (hf : (getRetAddrs f).foldlM (VexJITCache.fetchExit gen) ⟨[], [], [f]⟩ u = .ok (w, t))
    (hws : w.workset = [f, g]) (hg : g.name.addr = e) (he : e ∈ s.newExits gen a a) :
    s.newExits gen a a = [e] := by
  have hstart : ∀ g ∈ (⟨[], [], [f]⟩ : Fetch).workset ++ (⟨[], [], [f]⟩ : Fetch).complete,
      ∃ p, u.view.func p = some g := fun g hg => by
    obtain rfl : g = f := by simpa using hg
    exact ⟨a, hfunc⟩
  obtain ⟨ht, -, -, -, hnew⟩ := h.round hr hnear hstart hf
  refine newExits_eq_singleton he fun c hc => ?_
  obtain ⟨⟨b, hb, hcb⟩, hne, hm, hnil⟩ := mem_newExits.1 hc
  obtain rfl : b = f.body := Option.some.inj (hb.symm.trans (h.first a f hfunc))
  obtain ⟨f', hf', hcf⟩ := hnew c hcb hm hnil
  have hcn := (ht.inv.func c f' hcf).1
  simp only [hws, (fetchExits_struct hf).1, List.append_nil, List.mem_cons, List.not_mem_nil,
    or_false] at hf'
  rcases hf' with rfl | rfl
  · exact absurd (hcn.symm.trans (h.inv.func a f' hfunc).1) hne
  · exact hcn.symm.trans hg

end Second

/-- Away from guest addresses that are host addresses, just the one block is translated. -/
theorem room_of_ne (hs : s.OK) (hr : s.HasRoom gen host a) (hne : host ≠ a)
    (hn : s.view.vexsb a = none) : s.vexsb.size ≠ s.maxCacheEnts := by
  have hcard : ((s.near gen host a).toFinset.filter fun q => s.cachedVSB q = none).card = 1 := by
    simp [CacheState.near, hne, hs.cachedVSB, hn, Finset.filter_singleton]
  unfold CacheState.HasRoom at hr
  omega

/-- Where the cache has room, nothing is evicted, and the prefetch notes only what it
visits. -/
theorem Fetches.visits {r : Function × List (GuestPtr × FnName)} (hs : s.OK) (hv : s.view.Inv)
    (hd : s.view.Distinct) (hr : s.HasRoom gen host a) (h : Fetches gen host a s r u) :
    u.view.flushed = s.view.flushed ∧
      ∀ p ∈ (a, r.1.name) :: r.2, p.1 ∈ s.visits gen host a := by
  obtain ⟨s₁, s₂, h₁, h₂, hcase⟩ := h.cases
  obtain ⟨-, he, ok₁⟩ := getCachedFPtr_spec hs a h₁
  obtain ⟨hcode, hjit, hmax, hvexsb⟩ := getCachedFPtr_state h₁
  rcases hcase with ⟨hne, hL, rfl⟩ | ⟨rfl, w, hw, hL⟩
  · refine ⟨?_, by simp [hL, CacheState.visits]⟩
    rw [← he]
    refine (getFunc_adds ok₁ (he ▸ hv) (fun hn => ?_) h₂).flushed
    rw [hvexsb, hmax]
    exact room_of_ne hs hr hne (he ▸ hn)
  · have hg₁ : Grown gen host s s₁ := .of_view hs hv hd ok₁ he hcode hjit hmax hvexsb
    obtain ⟨hg₂, -, hc₂, -⟩ := hg₁.getFunc hr List.mem_cons_self h₂
    have hcached := hc₂ r.1 rfl
    have hfirst := hg₂.first host r.1 hcached
    have hnear : ∀ e ∈ getRetAddrs r.1, e ∈ s.near gen host host := fun e he =>
      mem_near_of_exits (mem_exits (List.mem_of_head? hfirst) he)
    obtain ⟨w₁, s₃, h₃, hrest⟩ := fetchLoop_rounds hw
    obtain ⟨hg₃, L₁, hr₁, hK₁⟩ := hg₂.found hr hfirst hnear h₃
    have first : ∀ p ∈ w₁.fnames, p.1 ∈ s.visits gen host host := fun p hp => by
      obtain ⟨c, hc, rfl⟩ := ((hr₁.fnames p).1 hp).resolve_left (by simp)
      exact mem_visits_first (hK₁ c hc).2.2
    rcases hrest with ⟨hn, rfl⟩ | ⟨g, w₂, hws, h₄, hn⟩
    · refine ⟨hg₃.flushed, List.forall_mem_cons.2 ⟨List.mem_cons_self, fun p hp => first p ?_⟩⟩
      rwa [hL, hn] at hp
    · obtain ⟨e, he⟩ := hr₁.exists_waiting (g := g) (by simp [hws])
      obtain ⟨hname, hge, hor⟩ := hK₁ (e, g) he
      have hexits : ∀ c ∈ getRetAddrs g, c ∈ s.exits gen e := fun c hc =>
        mem_exits (List.mem_of_head? hge) hc
      have hnear₂ : ∀ c ∈ getRetAddrs g, c ∈ s.near gen host host := fun c hc => by
        rcases hor with rfl | hor
        · exact mem_near_of_exits (hexits c hc)
        · exact mem_near_of_exits_exits (mem_exits_of_newExits hor) (hexits c hc)
      obtain ⟨hg₄, L₂, hr₂, hK₂⟩ := hg₃.found hr hge hnear₂ h₄
      refine ⟨hg₄.flushed, List.forall_mem_cons.2 ⟨List.mem_cons_self, fun p hp => ?_⟩⟩
      rw [hL, hn, hr₂.fnames] at hp
      rcases hp with hp | ⟨c, hc, rfl⟩
      · exact first p hp
      · rcases (hK₂ c hc).2.2 with hch | hch
        · exact mem_visits_first (.inl hch)
        · rcases hor with rfl | hor
          · exact mem_visits_first (.inr hch)
          · exact mem_visits_second (hg₂.newExits_eq hr hcached hnear h₃ hws hname hor) hch

end Visits

end VexJITCache

end VexLLVM
