/-
# Subnets — packets stay in the subnet of their class

Each class has a subnet, and a flit is injected at the turn of that subnet.  What has been written
is in order when

    subnet     every flit went into the subnet of its class
    order      of two flits of one packet the second comes later in the packet, and both are
               written at the same node and on the same VC
    complete   no flit is written before the one it follows

A packet that holds the switch goes first, and for that `_Step` looks at the class that was injected
last.  Before anything has been injected into a subnet this is class 0, whatever its subnet is: the
rest of a packet of class 0 can then be written into a subnet it does not belong to, or fail the
assertion that compares its VC.  `OwnClasses` is the condition on the state before a cycle under
which this does not happen.
-/
import BookSim.Injection

namespace BookSim

open List

namespace TrafficManager

open Function (update update_of_ne update_self)

/-! ## Order -/

/-- If both are of one packet, `f` comes before `g` in it. -/
def Earlier (f g : Flit) : Prop := f.pid = g.pid → f.id < g.id ∧ f.tail = false ∧ g.head = false

/-- Unless it is the last of its packet, `f` is followed by the next flit of it. -/
def Next (f g : Flit) : Prop := f.tail = false → g.pid = f.pid ∧ g.id = f.id + 1

/-- What is written, in order: subnet, node and flit. -/
structure InOrder (cfg : TrafficConfig) (written : List (ℕ × ℕ × Flit)) : Prop where
  subnet : ∀ x ∈ written, x.1 = cfg.subnet x.2.2.cl
  order : written.Pairwise fun x y => x.2.2.pid = y.2.2.pid →
    y.1 = x.1 ∧ y.2.1 = x.2.1 ∧ y.2.2.vc = x.2.2.vc ∧ Earlier x.2.2 y.2.2
  complete : ∀ y ∈ written, y.2.2.head = false →
    ∃ x ∈ written, x.2.2.pid = y.2.2.pid ∧ x.2.2.id + 1 = y.2.2.id

/-- An injection queue in which the flits of each packet are in order. -/
structure PacketQueue (c : ℕ) (q : List Flit) : Prop where
  queue : InjectionQueue c q
  earlier : q.Pairwise Earlier
  next : q.IsChain Next

namespace PacketQueue

variable {c : ℕ} {f : Flit} {q : List Flit}

theorem nil (c : ℕ) : PacketQueue c [] := ⟨.nil c, .nil, .nil⟩

theorem setVC (h : PacketQueue c (f :: q)) (vc : ℤ) : PacketQueue c ({ f with vc := vc } :: q) := by
  obtain ⟨hfirst, hrest⟩ := pairwise_cons.mp h.earlier
  refine ⟨h.queue.setVC vc, pairwise_cons.mpr ⟨hfirst, hrest⟩, ?_⟩
  cases q with
  | nil => exact .singleton _
  | cons g q =>
    obtain ⟨hfg, hq⟩ := isChain_cons_cons.mp h.next
    exact isChain_cons_cons.mpr ⟨hfg, hq⟩

theorem tail (h : PacketQueue c (f :: q)) : PacketQueue c q :=
  ⟨h.queue.tail, (pairwise_cons.mp h.earlier).2, h.next.tail⟩

theorem passBack (h : PacketQueue c (f :: q)) : PacketQueue c (passBack f q) := by
  cases q with
  | nil => exact nil c
  | cons g rest =>
    by_cases hf : f.tail = true
    · rw [TrafficManager.passBack, if_pos hf]
      exact h.tail
    · rw [TrafficManager.passBack, if_neg hf]
      exact h.tail.setVC f.vc

theorem append (h : PacketQueue c q) {pid : ℕ} (hpid : ∀ f ∈ q, f.pid < pid)
    (id source dest size : ℕ) (time pri : ℤ) :
    PacketQueue c (q ++ packetFlits id pid source dest size c time pri) := by
  refine ⟨h.queue.append (injectionQueue_packetFlits ..) (vc_packetFlits _ _ _ _ _ _ _ _)
    (head_packetFlits _ _ _ _ _ _ _ _), pairwise_append.mpr ⟨h.earlier, ?_, ?_⟩,
    isChain_append.mpr ⟨h.next, ?_, ?_⟩⟩
  · refine pairwise_map.mpr (pairwise_lt_range.imp_of_mem fun {i j} _ hj hlt _ => ?_)
    have := mem_range.mp hj
    simp only [decide_eq_false_iff_not]
    omega
  · intro f hf g hg heq
    obtain ⟨i, -, rfl⟩ := mem_map.mp hg
    exact absurd (hpid f hf) (heq ▸ lt_irrefl _)
  · cases size with
    | zero => exact .nil
    | succ size =>
      refine (isChain_map _).mpr ((isChain_range_succ _ _).mpr fun i _ _ => ⟨rfl, ?_⟩)
      simp only [Nat.succ_eq_add_one]
      omega
  · intro f hf g hg htail
    rw [h.queue.closed f hf] at htail
    cases htail

end PacketQueue

/-! ## Queues and what has been written -/

/-- Both are the same flit, on whatever VC. -/
def SameFlit (f g : Flit) : Prop := ∃ vc, g = { f with vc := vc }

/-- What waits and what has been written make up packets, each at one place. -/
structure Lined (cfg : TrafficConfig) (tm : TrafficManager) (written : List (ℕ × ℕ × Flit)) :
    Prop where
  queue : ∀ n c, PacketQueue c (tm.partialPackets n c)
  apart : ∀ {n c n' c' f g}, f ∈ tm.partialPackets n c → g ∈ tm.partialPackets n' c' →
    f.pid = g.pid → n' = n ∧ c' = c
  waiting_lt : ∀ {n c f}, f ∈ tm.partialPackets n c → f.pid < tm.curPid
  written_lt : ∀ x ∈ written, x.2.2.pid < tm.curPid
  /-- What has been written of a packet comes before what waits of it. -/
  sent : ∀ {n c f}, f ∈ tm.partialPackets n c → ∀ x ∈ written, x.2.2.pid = f.pid →
    x.1 = cfg.subnet c ∧ x.2.1 = n ∧ Earlier x.2.2 f
  /-- The rest of a packet continues on the VC of what has been written. -/
  front : ∀ {n c f rest}, tm.partialPackets n c = f :: rest → f.head = false →
    f.vc = tm.lastVC n (cfg.subnet c) c ∧ (∀ x ∈ written, x.2.2.pid = f.pid → x.2.2.vc = f.vc) ∧
      ∃ x ∈ written, x.2.2.pid = f.pid ∧ x.2.2.id + 1 = f.id
  inOrder : InOrder cfg written

/-- Some heads at the front of queues have got a VC. -/
def Tagged (queues queues' : ℕ → List Flit) : Prop :=
  ∀ c, queues' c = queues c ∨ ∃ f rest vc, queues c = f :: rest ∧ f.head = true ∧
    queues' c = { f with vc := vc } :: rest

theorem passBack_cons (f nf : Flit) (rest : List Flit) : passBack f (nf :: rest) =
      if f.tail then nf :: rest else { nf with vc := f.vc } :: rest := rfl

theorem mem_passBack {f g : Flit} {q : List Flit} (h : g ∈ passBack f q) :
    ∃ g₀ ∈ q, SameFlit g₀ g := by
  cases q with
  | nil => exact absurd h not_mem_nil
  | cons nf rest =>
    rw [passBack_cons] at h
    split at h
    · exact ⟨g, h, g.vc, rfl⟩
    · rcases mem_cons.mp h with rfl | h
      · exact ⟨nf, mem_cons_self, f.vc, rfl⟩
      · exact ⟨g, mem_cons_of_mem nf h, g.vc, rfl⟩

theorem InOrder.write {cfg : TrafficConfig} {written : List (ℕ × ℕ × Flit)} {x : ℕ × ℕ × Flit}
    (h : InOrder cfg written) (hsubnet : x.1 = cfg.subnet x.2.2.cl)
    (horder : ∀ y ∈ written, y.2.2.pid = x.2.2.pid →
      x.1 = y.1 ∧ x.2.1 = y.2.1 ∧ x.2.2.vc = y.2.2.vc ∧ Earlier y.2.2 x.2.2)
    (hcomplete : x.2.2.head = false → ∃ y ∈ written, y.2.2.pid = x.2.2.pid ∧
      y.2.2.id + 1 = x.2.2.id) : InOrder cfg (written ++ [x]) := by
  refine ⟨fun y hy => ?_, pairwise_append.mpr ⟨h.order, pairwise_singleton _ _,
    fun y hy z hz => ?_⟩, fun y hy hhead => ?_⟩
  · rcases mem_append.mp hy with hy | hy
    · exact h.subnet y hy
    · rwa [mem_singleton.mp hy]
  · rw [mem_singleton.mp hz]
    exact horder y hy
  · rcases mem_append.mp hy with hy | hy
    · obtain ⟨z, hz, hpid⟩ := h.complete y hy hhead
      exact ⟨z, mem_append_left _ hz, hpid⟩
    · rw [mem_singleton.mp hy] at hhead ⊢
      obtain ⟨z, hz, hpid⟩ := hcomplete hhead
      exact ⟨z, mem_append_left _ hz, hpid⟩

namespace Lined

variable {cfg : TrafficConfig} {tm tm' : TrafficManager} {written : List (ℕ × ℕ × Flit)} {n : ℕ}

theorem tag {queues : ℕ → List Flit} (h : Lined cfg tm written)
    (htag : Tagged (tm.partialPackets n) queues) :
    Lined cfg { tm with partialPackets := update tm.partialPackets n queues } written := by
  have hmem : ∀ {m c g}, g ∈ update tm.partialPackets n queues m c →
      ∃ f ∈ tm.partialPackets m c, SameFlit f g := by
    intro m c g hg
    by_cases hm : m = n
    · subst hm
      rw [update_self] at hg
      rcases htag c with hsame | ⟨f, rest, vc, hq, -, hq'⟩
      · exact ⟨g, hsame ▸ hg, g.vc, rfl⟩
      · rw [hq'] at hg
        rw [hq]
        rcases mem_cons.mp hg with rfl | hg
        · exact ⟨f, mem_cons_self, vc, rfl⟩
        · exact ⟨g, mem_cons_of_mem f hg, g.vc, rfl⟩
    · rw [update_of_ne hm] at hg
      exact ⟨g, hg, g.vc, rfl⟩
  refine ⟨fun m c => ?_, fun hf hg heq => ?_, fun hf => ?_, h.written_lt, fun hf x hx heq => ?_,
    fun {m c f rest} hq hhead => ?_, h.inOrder⟩
  · show PacketQueue c (update tm.partialPackets n queues m c)
    by_cases hm : m = n
    · subst hm
      rw [update_self]
      rcases htag c with hsame | ⟨f, rest, vc, hq, -, hq'⟩
      · rw [hsame]
        exact h.queue m c
      · rw [hq']
        exact (hq ▸ h.queue m c).setVC vc
    · rw [update_of_ne hm]
      exact h.queue m c
  · obtain ⟨f, hf', vc, rfl⟩ := hmem hf
    obtain ⟨g, hg', vc', rfl⟩ := hmem hg
    exact h.apart hf' hg' heq
  · obtain ⟨f, hf', vc, rfl⟩ := hmem hf
    exact (h.waiting_lt hf' :)
  · obtain ⟨f, hf', vc, rfl⟩ := hmem hf
    exact h.sent hf' x hx heq
  · have hfront : tm.partialPackets m c = f :: rest := by
      change update tm.partialPackets n queues m c = f :: rest at hq
      by_cases hm : m = n
      · subst hm
        rw [update_self] at hq
        rcases htag c with hsame | ⟨f', rest', vc, -, hhead', hq'⟩
        · rw [← hsame, hq]
        · -- what is tagged is a head
          rw [hq'] at hq
          cases hq
          rw [hhead'] at hhead
          cases hhead
      · rwa [update_of_ne hm] at hq
    exact h.front hfront hhead

theorem written_of_front {f : Flit} {rest : List Flit} (h : Lined cfg tm written)
    (hq : tm.partialPackets n f.cl = f :: rest) {x : ℕ × ℕ × Flit} (hx : x ∈ written)
    (hpid : x.2.2.pid = f.pid) :
    f.head = false ∧ x.1 = cfg.subnet f.cl ∧ x.2.1 = n ∧ x.2.2.vc = f.vc ∧ Earlier x.2.2 f := by
  obtain ⟨hsubnet, hn, hearlier⟩ := h.sent (hq ▸ mem_cons_self) x hx hpid
  have hhead := (hearlier hpid).2.2
  exact ⟨hhead, hsubnet, hn, (h.front hq hhead).2.1 x hx hpid, hearlier⟩

theorem front_passBack {f g : Flit} {rest rest' : List Flit} {pri time : ℤ} {lastVC : ℕ → ℕ → ℕ → ℤ}
    (h : Lined cfg tm written) (hq : tm.partialPackets n f.cl = f :: rest)
    (hg : passBack f rest = g :: rest') (hhead : g.head = false)
    (hlast : lastVC = if f.head then update₂ tm.lastVC n (cfg.subnet f.cl)
      (update (tm.lastVC n (cfg.subnet f.cl)) f.cl f.vc) else tm.lastVC) :
    let written' := written ++ [(cfg.subnet f.cl, n, { f with pri := pri, itime := time })]
    g.vc = lastVC n (cfg.subnet f.cl) f.cl ∧ (∀ x ∈ written', x.2.2.pid = g.pid → x.2.2.vc = g.vc) ∧
      ∃ x ∈ written', x.2.2.pid = g.pid ∧ x.2.2.id + 1 = g.id := by
  have hqueue := h.queue n f.cl
  rw [hq] at hqueue
  cases rest with
  | nil => exact absurd hg (cons_ne_nil _ _).symm
  | cons nf rest =>
    have hnf : nf.head = f.tail := (isChain_cons_cons.mp hqueue.queue.chain).1
    have hnext : Next f nf := (isChain_cons_cons.mp hqueue.next).1
    rw [passBack_cons] at hg
    split at hg
    · next htail =>
        cases hg
        rw [hnf, htail] at hhead
        cases hhead
    · next htail =>
        cases hg
        obtain ⟨hpid, hid⟩ := hnext (Bool.not_eq_true _ ▸ htail)
        refine ⟨?_, fun x hx heq => ?_, _, mem_append_right _ (mem_singleton.mpr rfl),
          hpid.symm, hid.symm⟩
        · show f.vc = _
          rw [hlast]
          split
          · rw [update₂_row, update_self, update_self]
          · next hf => exact (h.front hq (Bool.not_eq_true _ ▸ hf)).1
        · rcases mem_append.mp hx with hx | hx
          · exact (h.written_of_front hq hx (heq.trans hpid)).2.2.2.1
          · rw [mem_singleton.mp hx]

theorem send {f : Flit} {rest : List Flit} {pri time : ℤ} (h : Lined cfg tm written)
    (hq : tm.partialPackets n f.cl = f :: rest)
    (hqueues : tm'.partialPackets = update₂ tm.partialPackets n f.cl (passBack f rest))
    (hlast : tm'.lastVC = if f.head then update₂ tm.lastVC n (cfg.subnet f.cl)
      (update (tm.lastVC n (cfg.subnet f.cl)) f.cl f.vc) else tm.lastVC)
    (hcur : tm'.curPid = tm.curPid) :
    Lined cfg tm' (written ++ [(cfg.subnet f.cl, n, { f with pri := pri, itime := time })]) := by
  have hwritten := fun x (hx : x ∈ written) => h.written_of_front hq hx
  have hfront : f ∈ tm.partialPackets n f.cl := hq ▸ mem_cons_self
  have hfirst : ∀ g ∈ rest, Earlier f g :=
    (pairwise_cons.mp (hq ▸ (h.queue n f.cl).earlier)).1
  have hmem : ∀ {m c g}, g ∈ tm'.partialPackets m c →
      ∃ g₀ ∈ tm.partialPackets m c, SameFlit g₀ g ∧ (m = n → c = f.cl → g₀ ∈ rest) := by
    intro m c g hg
    rw [hqueues, update₂_apply] at hg
    split at hg
    · next hmc =>
        obtain ⟨rfl, rfl⟩ := hmc
        obtain ⟨g₀, hg₀, hsame⟩ := mem_passBack hg
        exact ⟨g₀, hq ▸ mem_cons_of_mem f hg₀, hsame, fun _ _ => hg₀⟩
    · next hmc => exact ⟨g, hg, ⟨g.vc, rfl⟩, fun hm hc => absurd ⟨hm, hc⟩ hmc⟩
  refine ⟨fun m c => ?_, fun hf hg heq => ?_, fun hg => ?_, fun x hx => ?_, fun hg x hx heq => ?_,
    fun {m c g rest'} hg hhead => ?_, h.inOrder.write rfl (fun y hy hpid => ?_) fun hhead => ?_⟩
  · rw [hqueues, update₂_apply]
    split
    · next hmc =>
        obtain ⟨rfl, rfl⟩ := hmc
        exact (hq ▸ h.queue m f.cl).passBack
    · exact h.queue m c
  · obtain ⟨f', hf', ⟨vc, rfl⟩, -⟩ := hmem hf
    obtain ⟨g, hg', ⟨vc', rfl⟩, -⟩ := hmem hg
    exact h.apart hf' hg' heq
  · obtain ⟨g, hg', ⟨vc, rfl⟩, -⟩ := hmem hg
    rw [hcur]
    exact (h.waiting_lt hg' :)
  · rw [hcur]
    rcases mem_append.mp hx with hx | hx
    · exact h.written_lt x hx
    · rw [mem_singleton.mp hx]
      exact (h.waiting_lt hfront :)
  · obtain ⟨g, hg', ⟨vc, rfl⟩, hrest⟩ := hmem hg
    rcases mem_append.mp hx with hx | hx
    · exact h.sent hg' x hx heq
    · rw [mem_singleton.mp hx] at heq ⊢
      obtain ⟨rfl, rfl⟩ := h.apart hfront hg' heq
      exact ⟨rfl, rfl, hfirst g (hrest rfl rfl)⟩
  · rw [hqueues, update₂_apply] at hg
    split at hg
    · next hmc =>
        obtain ⟨rfl, rfl⟩ := hmc
        exact h.front_passBack hq hg hhead hlast
    · next hmc =>
        obtain ⟨hvc, hpid, x, hx, hx'⟩ := h.front hg hhead
        refine ⟨?_, fun y hy heq => ?_, x, mem_append_left _ hx, hx'⟩
        · rw [hvc, hlast]
          split
          · rw [update₂_apply]
            split
            · next hms =>
                have hc : c ≠ f.cl := fun hc => hmc ⟨hms.1, hc⟩
                rw [update_of_ne hc, hms.1, hms.2]
            · rfl
          · rfl
        · grind
  · obtain ⟨-, hsubnet, hn, hvc, hearlier⟩ := hwritten y hy hpid
    exact ⟨hsubnet.symm, hn.symm, hvc.symm, hearlier⟩
  · exact (h.front hq hhead).2.2

theorem generatePacket {source size cl : ℕ} {dest time : ℤ} {pid : Option ℕ}
    (h : Lined cfg tm written)
    (hgen : generatePacket cfg tm source dest size cl time = .ok (tm', pid)) :
    Lined cfg tm' written := by
  rcases generatePacket_eq_ok hgen with ⟨-, rfl⟩ | ⟨-, pri, rfl⟩
  · exact h
  have hmem : ∀ {n c f}, f ∈ update₂ tm.partialPackets source cl (tm.partialPackets source cl ++
      packetFlits tm.curId tm.curPid source dest.toNat size cl time pri) n c →
      f ∈ tm.partialPackets n c ∨ f.pid = tm.curPid ∧ n = source ∧ c = cl := by
    intro n c f hf
    rw [update₂_apply] at hf
    split at hf
    · next hnc =>
        obtain ⟨rfl, rfl⟩ := hnc
        rcases mem_append.mp hf with hf | hf
        · exact .inl hf
        · obtain ⟨i, -, rfl⟩ := mem_map.mp hf
          exact .inr ⟨rfl, rfl, rfl⟩
    · exact .inl hf
  refine ⟨fun n c => ?_, fun hf hg heq => ?_, fun hf => ?_, fun x hx => ?_, fun hf x hx heq => ?_,
    fun {n c f rest} hq hhead => ?_, h.inOrder⟩
  · show PacketQueue c (update₂ tm.partialPackets source cl _ n c)
    rw [update₂_apply]
    split
    · next hnc =>
        obtain ⟨rfl, rfl⟩ := hnc
        exact (h.queue n c).append (fun f hf => h.waiting_lt hf) ..
    · exact h.queue n c
  · rcases hmem hf with hf' | ⟨hpid, hn, hc⟩
    · rcases hmem hg with hg' | ⟨hpid', -⟩
      · exact h.apart hf' hg' heq
      · exact absurd (h.waiting_lt hf') (by rw [heq, hpid']; exact lt_irrefl _)
    · rcases hmem hg with hg' | ⟨-, hn', hc'⟩
      · exact absurd (h.waiting_lt hg') (by rw [← heq, hpid]; exact lt_irrefl _)
      · exact ⟨hn'.trans hn.symm, hc'.trans hc.symm⟩
  · show _ < tm.curPid + 1
    rcases hmem hf with hf' | ⟨hpid, -⟩
    · exact Nat.lt_succ_of_lt (h.waiting_lt hf')
    · rw [hpid]
      exact Nat.lt_succ_self _
  · exact Nat.lt_succ_of_lt (h.written_lt x hx)
  · rcases hmem hf with hf' | ⟨hpid, -⟩
    · exact h.sent hf' x hx heq
    · exact absurd (h.written_lt x hx) (by rw [heq, hpid]; exact lt_irrefl _)
  · change update₂ tm.partialPackets source cl _ n c = f :: rest at hq
    rw [update₂_apply] at hq
    split at hq
    · next hnc =>
        obtain ⟨rfl, rfl⟩ := hnc
        cases hold : tm.partialPackets n c with
        | nil =>
          -- a packet starts with its head
          rw [hold, nil_append] at hq
          have hfirst := head_packetFlits tm.curId tm.curPid n dest.toNat size c time pri f
            (by rw [hq]; rfl)
          rw [hfirst] at hhead
          cases hhead
        | cons g q =>
          rw [hold, cons_append] at hq
          cases hq
          exact h.front hold hhead
    · exact h.front hq hhead

theorem of_frame (h : Lined cfg tm written) (hqueues : tm'.partialPackets = tm.partialPackets)
    (hlast : tm'.lastVC = tm.lastVC) (hcur : tm'.curPid = tm.curPid) : Lined cfg tm' written := by
  refine ⟨?_, ?_, ?_, ?_, ?_, ?_, h.inOrder⟩
  · rw [hqueues]
    exact h.queue
  · rw [hqueues]
    exact h.apart
  · rw [hqueues, hcur]
    exact h.waiting_lt
  · rw [hcur]
    exact h.written_lt
  · rw [hqueues]
    exact h.sent
  · rw [hqueues, hlast]
    exact h.front

theorem new (bufs : ℕ → ℕ → BufferState) (gEndVCs : ℕ → ℤ) : Lined cfg (new bufs gEndVCs) [] where
  queue _ c := .nil c
  apart hf _ _ := absurd hf not_mem_nil
  waiting_lt hf := absurd hf not_mem_nil
  written_lt _ hx := absurd hx not_mem_nil
  sent hf _ _ _ := absurd hf not_mem_nil
  front hq _ := absurd hq (cons_ne_nil _ _).symm
  inOrder := ⟨fun _ hx => absurd hx not_mem_nil, .nil, fun _ hx => absurd hx not_mem_nil⟩

end Lined

/-! ## One injection -/

/-- A flit that may keep the switch of a subnet is of a class of this subnet.  (It is the front flit
of the class that was injected last, if it is no head and there is room for it.) -/
def HoldsOwn (cfg : TrafficConfig) (tm : TrafficManager) (subnet n : ℕ) : Prop :=
  cfg.holdSwitchForPacket = true → ∀ f rest,
    tm.partialPackets n (tm.lastClass n subnet) = f :: rest → f.head = false →
    (tm.bufStates n subnet).isFullFor tm.time f.vc = false →
    cfg.subnet (tm.lastClass n subnet) = subnet

section Injection

variable {cfg : TrafficConfig} {net : NetworkSide} {tm tm' : TrafficManager}
  {written : List (ℕ × ℕ × Flit)} {subnet n : ℕ}

/-- While a flit is chosen: heads may get a VC, and the best flit is the front one of a class of the
subnet. -/
structure Choosing (cfg : TrafficConfig) (tm : TrafficManager) (subnet n : ℕ)
    (s : (ℕ → List Flit) × Option Flit) : Prop where
  tagged : Tagged (tm.partialPackets n) s.1
  best : ∀ f ∈ s.2, cfg.subnet f.cl = subnet ∧ ∃ rest, s.1 f.cl = f :: rest

theorem Lined.heldFlit (h : Lined cfg tm written) (hown : HoldsOwn cfg tm subnet n) :
    ∃ held, heldFlit cfg tm subnet n = .ok held ∧
    Choosing cfg tm subnet n (tm.partialPackets n, held) := by
  unfold TrafficManager.heldFlit
  cases hq : tm.partialPackets n (tm.lastClass n subnet) with
  | nil => exact ⟨none, rfl, fun c => .inl rfl, fun f hf => absurd hf (Option.not_mem_none f)⟩
  | cons f rest =>
    dsimp only
    split
    · next hhold =>
        have hsubnet := hown hhold.1 f rest hq hhold.2.1 hhold.2.2
        have hvc := (h.front hq hhold.2.1).1
        have hcl : f.cl = tm.lastClass n subnet := (h.queue _ _).queue.cl f (hq ▸ mem_cons_self)
        rw [hsubnet] at hvc
        refine ⟨some f, require_bind hvc _, fun c => .inl rfl, fun g hg => ?_⟩
        obtain rfl := Option.mem_some.mp hg
        rw [hcl]
        exact ⟨hsubnet, rest, hq⟩
    · exact ⟨none, rfl, fun c => .inl rfl, fun f hf => absurd hf (Option.not_mem_none f)⟩

theorem Choosing.consider {s s' : (ℕ → List Flit) × Option Flit} {c : ℕ}
    (h : Choosing cfg tm subnet n s) (hs : considerClass cfg net tm subnet n s c = .ok s') :
    Choosing cfg tm subnet n s' := by
  rcases considerClass_eq_ok hs with rfl |
    ⟨cf, rest, cf', hsubnet, hq, hcl, hpri, hpick, hq', hbest⟩
  · exact h
  have hcf : cf'.cl = c ∧ (s'.1 = s.1 ∨ cf.head = true ∧ ∃ vc, cf' = { cf with vc := vc }) := by
    rcases pickVC_eq_ok hpick with ⟨-, rfl⟩ | ⟨hseek, -, vc, -, rfl, -⟩
    · refine ⟨hcl, .inl ?_⟩
      rw [hq', ← hq, Function.update_eq_self]
    · exact ⟨hcl, .inr ⟨hseek.1, vc, rfl⟩⟩
  refine ⟨fun d => ?_, fun f hf => ?_⟩
  · rcases hcf.2 with hsame | ⟨hhead, vc, rfl⟩
    · rw [hsame]
      exact h.tagged d
    · by_cases hd : d = c
      · subst hd
        rw [hq', update_self]
        rcases h.tagged d with hold | ⟨f, rest', vc', hold, hf, hold'⟩
        · exact .inr ⟨cf, rest, vc, hold ▸ hq, hhead, rfl⟩
        · rw [hq] at hold'
          cases hold'
          exact .inr ⟨f, rest, vc, hold, hf, rfl⟩
      · rw [hq', update_of_ne hd]
        exact h.tagged d
  · rcases hbest with ⟨hbest, -⟩ | ⟨hbest, -⟩
    · rw [hbest] at hf
      obtain ⟨hf', rest', hfront⟩ := h.best f hf
      have hne : f.cl ≠ c := by
        intro hc
        rw [hc, hq] at hfront
        cases hfront
        exact lt_irrefl _ (hpri _ hf)
      rw [hq', update_of_ne hne]
      exact ⟨hf', rest', hfront⟩
    · rw [hbest] at hf
      obtain rfl := Option.mem_some.mp hf
      rw [hcf.1, hq', update_self]
      exact ⟨hsubnet, rest, rfl⟩

theorem Lined.selectFlit {s : (ℕ → List Flit) × Option Flit} (h : Lined cfg tm written)
    (hown : HoldsOwn cfg tm subnet n) (hselect : selectFlit cfg net tm subnet n = .ok s) :
    Choosing cfg tm subnet n s := by
  obtain ⟨held, hheld, hchoosing⟩ := h.heldFlit hown
  obtain ⟨held', hheld', hselect⟩ := bind_ok.mp hselect
  obtain rfl := Except.ok.inj (hheld.symm.trans hheld')
  exact inv_of_foldlM_eq_ok (I := Choosing cfg tm subnet n) hselect
    (fun _ _ _ _ hs' h => h.consider hs') hchoosing

theorem Lined.injectAt {s s' : TrafficManager × List (ℕ × ℕ × Flit)} {place : ℕ × ℕ}
    (h : Lined cfg s.1 (written ++ s.2)) (hown : HoldsOwn cfg s.1 place.1 place.2)
    (hs : injectAt cfg net s place = .ok s') : Lined cfg s'.1 (written ++ s'.2) := by
  obtain ⟨subnet, n⟩ := place
  obtain ⟨⟨queues, best⟩, hselect, hs⟩ := bind_ok.mp hs
  have hchosen : Choosing cfg s.1 subnet n (queues, best) := h.selectFlit hown hselect
  have htag := h.tag hchosen.tagged
  cases best with
  | none =>
    obtain rfl := return_ok.mp hs
    exact htag
  | some f =>
    obtain ⟨⟨tm', g⟩, hsend, hs⟩ := bind_ok.mp hs
    obtain rfl := return_ok.mp hs
    obtain ⟨taken, sent, pri, -, -, rfl, rfl⟩ := sendFlit_eq_ok hsend
    obtain ⟨rfl, rest, hq⟩ := hchosen.best f rfl
    have hq' : update s.1.partialPackets n queues n f.cl = f :: rest := by
      rwa [update_self]
    rw [← append_assoc]
    refine htag.send hq' ?_ rfl rfl
    show update₂ _ n f.cl (passBack f (update s.1.partialPackets n queues n f.cl).tail) = _
    rw [hq']
    rfl

/-- The condition on the state before a cycle: packets do not keep the switch, or at every node the
class that was injected last into a subnet is one of this subnet, or of that class no flit waits at
the node that is not a head. -/
def OwnClasses (cfg : TrafficConfig) (tm : TrafficManager) : Prop :=
  cfg.holdSwitchForPacket = true → ∀ n < cfg.nodes, ∀ subnet < cfg.subnets,
    cfg.subnet (tm.lastClass n subnet) = subnet ∨
      ∀ f ∈ tm.partialPackets n (tm.lastClass n subnet), f.head = true

theorem OwnClasses.holdsOwn (h : OwnClasses cfg tm) (hn : n < cfg.nodes)
    (hsubnet : subnet < cfg.subnets) : HoldsOwn cfg tm subnet n := by
  intro hhold f rest hq hhead _
  refine (h hhold n hn subnet hsubnet).resolve_right fun hheads => ?_
  exact absurd (hheads f (hq ▸ mem_cons_self)) (by rw [hhead]; decide)

/-- A turn injects a flit of the subnet, if any, and leaves no other rest of a packet behind. -/
theorem OwnClasses.injectAt {s s' : TrafficManager × List (ℕ × ℕ × Flit)} {place : ℕ × ℕ}
    (h : OwnClasses cfg s.1) (hlined : Lined cfg s.1 (written ++ s.2)) (hplace : place ∈ places cfg)
    (hs : injectAt cfg net s place = .ok s') : OwnClasses cfg s'.1 := by
  intro hhold m hm sub hsub
  have hheads : (∀ f ∈ s.1.partialPackets m (s.1.lastClass m sub), f.head = true) →
      ∀ f ∈ s'.1.partialPackets m (s.1.lastClass m sub), f.head = true := by
    intro hall f hf
    obtain ⟨g, hg, hgf⟩ := exists_of_suffix (injectAt_suffix hs m _) hf
    have hhead : (withoutVC g).head = (withoutVC f).head := congrArg Flit.head hgf
    exact hhead ▸ hall g hg
  have hold := (h hhold m hm sub hsub).imp_right hheads
  obtain ⟨hplace₁, hplace₂⟩ := mem_places.mp hplace
  obtain ⟨⟨queues, best⟩, hselect, hs⟩ := bind_ok.mp hs
  have hchosen := hlined.selectFlit (h.holdsOwn hplace₂ hplace₁) hselect
  cases best with
  | none =>
    obtain rfl := return_ok.mp hs
    exact hold
  | some f =>
    obtain ⟨⟨tm', g⟩, hsend, hs⟩ := bind_ok.mp hs
    obtain rfl := return_ok.mp hs
    obtain ⟨taken, sent, pri, -, -, rfl, -⟩ := sendFlit_eq_ok hsend
    have hlast : update₂ s.1.lastClass place.2 place.1 f.cl m sub =
      if m = place.2 ∧ sub = place.1 then f.cl else s.1.lastClass m sub := update₂_apply ..
    dsimp only at hold ⊢
    split_ifs at hlast with hhere
    · obtain ⟨rfl, rfl⟩ := hhere
      rw [hlast]
      exact .inl (hchosen.best f rfl).1
    · rwa [hlast]

end Injection

/-! ## Runs -/

section Runs

variable {cfg : TrafficConfig} {actualNode : ℕ → ℕ} {net : NetworkSide} {tm tm' : TrafficManager}
  {written : List (ℕ × ℕ × Flit)}

/-- In the cycle that starts in `tm` it comes to `place`, with `s`. -/
def Turn (cfg : TrafficConfig) (net : NetworkSide) (tm : TrafficManager)
    (s : TrafficManager × List (ℕ × ℕ × Flit)) (place : ℕ × ℕ) : Prop :=
  ∃ received seen rest, receiveCredits cfg net tm = .ok received ∧
    places cfg = seen ++ place :: rest ∧ seen.foldlM (injectAt cfg net) (received, []) = .ok s

/-- The runs whose cycles meet the condition, with all that has been written: any packets, credits,
arrivals and routes. -/
inductive WrittenRun (cfg : TrafficConfig) (actualNode : ℕ → ℕ) :
    TrafficManager → List (ℕ × ℕ × Flit) → Prop
  | new (bufs : ℕ → ℕ → BufferState) (gEndVCs : ℕ → ℤ) :
      WrittenRun cfg actualNode (new bufs gEndVCs) []
  | generate {tm tm' : TrafficManager} {written : List (ℕ × ℕ × Flit)} {source size cl : ℕ}
      {dest time : ℤ} {pid : Option ℕ} : WrittenRun cfg actualNode tm written →
      generatePacket cfg tm source dest size cl time = .ok (tm', pid) →
      WrittenRun cfg actualNode tm' written
  | retire {tm : TrafficManager} {written : List (ℕ × ℕ × Flit)} :
      WrittenRun cfg actualNode tm written →
      WrittenRun cfg actualNode (retirePacket cfg actualNode tm).1 written
  | step {tm tm' : TrafficManager} {written sent : List (ℕ × ℕ × Flit)} {net : NetworkSide} :
      WrittenRun cfg actualNode tm written → OwnClasses cfg tm →
      step cfg actualNode net tm = .ok (tm', sent) → WrittenRun cfg actualNode tm' (written ++ sent)

theorem Lined.receiveCredits (h : Lined cfg tm written)
    (hreceive : receiveCredits cfg net tm = .ok tm') : Lined cfg tm' written := by
  rw [receiveCredits_frame hreceive]
  exact h.of_frame rfl rfl rfl

theorem Lined.turns {seen rest : List (ℕ × ℕ)} {s : TrafficManager × List (ℕ × ℕ × Flit)}
    (h : Lined cfg tm written) (hown : OwnClasses cfg tm)
    (hreceive : TrafficManager.receiveCredits cfg net tm = .ok tm')
    (hsplit : places cfg = seen ++ rest)
    (hs : seen.foldlM (TrafficManager.injectAt cfg net) (tm', []) = .ok s) :
    Lined cfg s.1 (written ++ s.2) ∧ OwnClasses cfg s.1 := by
  refine inv_of_foldlM_eq_ok (I := fun s => Lined cfg s.1 (written ++ s.2) ∧ OwnClasses cfg s.1) hs
    (fun s₁ s₂ place hplace hs₂ hinv => ?_) ⟨?_, ?_⟩
  · obtain ⟨hlined, hown₁⟩ := hinv
    have hmem : place ∈ places cfg := hsplit ▸ mem_append_left _ hplace
    obtain ⟨hplace₁, hplace₂⟩ := mem_places.mp hmem
    exact ⟨hlined.injectAt (hown₁.holdsOwn hplace₂ hplace₁) hs₂, hown₁.injectAt hlined hmem hs₂⟩
  · rw [append_nil]
    exact h.receiveCredits hreceive
  · rwa [receiveCredits_frame hreceive]

theorem Lined.step {sent : List (ℕ × ℕ × Flit)} (h : Lined cfg tm written)
    (hown : OwnClasses cfg tm) (hstep : step cfg actualNode net tm = .ok (tm', sent)) :
    Lined cfg tm' (written ++ sent) := by
  obtain ⟨received, hreceive, hstep⟩ := bind_ok.mp hstep
  obtain ⟨injected, hinject, hstep⟩ := bind_ok.mp hstep
  obtain ⟨retired, hretire, hstep⟩ := bind_ok.mp hstep
  cases return_ok.mp hstep
  obtain ⟨hinjected, -⟩ := h.turns hown hreceive (append_nil _).symm hinject
  have hretired : Lined cfg retired (written ++ injected.2) := by
    refine inv_of_foldlM_eq_ok (I := fun tm => Lined cfg tm (written ++ injected.2)) hretire
      (fun t u arrival _ hu ht => ?_) hinjected
    rw [retireFlit_frame hu]
    exact ht.of_frame rfl rfl rfl
  exact hretired.of_frame rfl rfl rfl

theorem WrittenRun.lined (h : WrittenRun cfg actualNode tm written) : Lined cfg tm written := by
  induction h with
  | new bufs gEndVCs => exact .new bufs gEndVCs
  | generate _ hgen ih => exact ih.generatePacket hgen
  | retire _ ih =>
    rw [retirePacket_frame]
    exact ih.of_frame rfl rfl rfl
  | step _ hown hstep ih => exact ih.step hown hstep

/-- In every run whose cycles start with the right classes noted, and in the cycle that follows:
whenever it is the turn of a subnet at a node, the assertion about the VC of a held flit does not
fail, and all that has been written is in order: each flit went into the subnet of its class, and
the flits of a packet one after the other on the VC of the first. -/
theorem packets_stay_in_subnet (h : WrittenRun cfg actualNode tm written)
    (hown : OwnClasses cfg tm) :
    (∀ s place, Turn cfg net tm s place → (∃ held, heldFlit cfg s.1 place.1 place.2 = .ok held) ∧
      InOrder cfg (written ++ s.2)) ∧
    ∀ tm' sent, step cfg actualNode net tm = .ok (tm', sent) → InOrder cfg (written ++ sent) := by
  constructor
  · rintro s place ⟨received, seen, rest, hreceive, hsplit, hs⟩
    obtain ⟨hlined, hown'⟩ := h.lined.turns hown hreceive hsplit hs
    obtain ⟨hplace₁, hplace₂⟩ : place.1 < cfg.subnets ∧ place.2 < cfg.nodes :=
      mem_places.mp (by rw [hsplit]; exact mem_append_right _ mem_cons_self)
    obtain ⟨held, hheld, -⟩ := hlined.heldFlit (hown'.holdsOwn hplace₂ hplace₁)
    exact ⟨⟨held, hheld⟩, hlined.inOrder⟩
  · intro tm' sent hstep
    exact (h.lined.step hown hstep).inOrder

/-- One node and one class, in subnet 0; packets keep the switch. -/
def heldSwitch (subnets : ℕ) : TrafficConfig where
  nodes := 1
  classes := 1
  subnets := subnets
  subnet := fun _ => 0
  injSize := 8
  holdSwitchForPacket := true
  noq := false
  priType := .none
  classPriority := fun _ => 0

/-- Two VCs with four slots each. -/
def twoVCs : BufferState := { fourSlots with vcs := 2, size := 8 }

/-- Two classes, each with a subnet of its own. -/
def twoSubnets : TrafficConfig := { heldSwitch 2 with classes := 2, subnet := id }

/-- A packet of class 1 has started in subnet 1 when one of class 0 comes: in the second cycle its
tail keeps the switch of subnet 1, while the head of the other goes into subnet 0. -/
theorem packets_stay_in_subnet_two : ∃ tm₁ tm₂ tm₃ tm₄ sent sent',
    generatePacket twoSubnets (new (fun _ _ => fourSlots) fun _ => 0) 0 0 2 1 0 =
      .ok (tm₁, some 0) ∧
    step twoSubnets id vcZero tm₁ = .ok (tm₂, sent) ∧
    generatePacket twoSubnets tm₂ 0 0 2 0 0 = .ok (tm₃, some 1) ∧
    step twoSubnets id vcZero tm₃ = .ok (tm₄, sent') ∧
    sent'.map (fun x => (x.1, x.2.2.id)) = [(0, 2), (1, 1)] ∧
    InOrder twoSubnets (sent ++ sent') := by
  obtain ⟨tm₁, hgen₁, hnone⟩ : ∃ tm₁, generatePacket twoSubnets (new (fun _ _ => fourSlots)
    fun _ => 0) 0 0 2 1 0 = .ok (tm₁, some 0) ∧ ∀ subnet, tm₁.partialPackets 0
      (tm₁.lastClass 0 subnet) = [] := ⟨_, rfl, fun _ => rfl⟩
  obtain ⟨tm₂, sent, hstep₁⟩ : ∃ tm₂ sent, step twoSubnets id vcZero tm₁ = .ok (tm₂, sent) := by
    cases hgen₁
    exact ⟨_, _, rfl⟩
  obtain ⟨tm₃, hgen₂, hlast'⟩ : ∃ tm₃, generatePacket twoSubnets tm₂ 0 0 2 0 0 = .ok (tm₃, some 1) ∧
      tm₃.lastClass 0 0 = 0 ∧ tm₃.lastClass 0 1 = 1 := by
    cases hgen₁
    cases hstep₁
    exact ⟨_, rfl, rfl, rfl⟩
  obtain ⟨tm₄, sent', hstep₂, hsent⟩ : ∃ tm₄ sent', step twoSubnets id vcZero tm₃ =
      .ok (tm₄, sent') ∧ sent'.map (fun x => (x.1, x.2.2.id)) = [(0, 2), (1, 1)] := by
    cases hgen₁
    cases hstep₁
    cases hgen₂
    exact ⟨_, _, rfl, rfl⟩
  have hown₁ : OwnClasses twoSubnets tm₁ := by
    intro _ n hn subnet _
    obtain rfl := Nat.lt_one_iff.mp hn
    exact .inr (by rw [hnone]; exact fun f hf => absurd hf not_mem_nil)
  have hown₂ : OwnClasses twoSubnets tm₃ := by
    intro _ n hn subnet hsubnet
    obtain rfl := Nat.lt_one_iff.mp hn
    obtain rfl | rfl : subnet = 0 ∨ subnet = 1 := by
      have : subnet < 2 := hsubnet
      omega
    · exact .inl hlast'.1
    · exact .inl hlast'.2
  exact ⟨tm₁, tm₂, tm₃, tm₄, sent, sent', hgen₁, hstep₁, hgen₂, hstep₂, hsent,
    (packets_stay_in_subnet (.generate (.step (.generate (.new _ _) hgen₁) hown₁ hstep₁) hgen₂)
      hown₂).2 tm₄ sent' hstep₂⟩

/-- With a second one, which no class uses, the second flit of a packet goes there if its VC is the
one noted for it in the beginning; if not, the assertion fails. -/
theorem heldSwitch_leaves_subnet :
    (∃ tm tm' sent, generatePacket (heldSwitch 2)
        (new (fun _ _ => fourSlots) fun _ => 0) 0 0 2 0 0 = .ok (tm, some 0) ∧
      step (heldSwitch 2) id vcZero tm = .ok (tm', sent) ∧
      sent.map (fun x => (x.1, x.2.2.id)) = [(0, 0), (1, 1)]) ∧
    ∃ tm, generatePacket (heldSwitch 2) (new (fun _ _ => twoVCs) fun _ => 1) 0 0 2 0 0 =
        .ok (tm, some 0) ∧
      step (heldSwitch 2) id vcZero tm =
        .error (.assertion "f->vc == _last_vc[n][subnet][last_class]") :=
  ⟨⟨_, _, _, rfl, rfl, rfl⟩, _, rfl, rfl⟩

end Runs

end TrafficManager

end BookSim
