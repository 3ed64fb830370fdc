/-
# MeshDeadlock — XY and YX packets do not wait in a circle

With an even range, XY packets have the lower half of the VCs and YX packets the upper one.  A
channel ranks by its dimension, in that order, and then by how far along it is.
-/
import BookSim.Networks.KNTorus
import BookSim.Networks.MeshOrder
import Mathlib.Data.Prod.Lex

namespace BookSim.KNCube

open Routing RingWay

variable {net : KNCube} {vcs : ClassVCs} {adaptive : Bool} {cl dest : ℕ} {s t u : Flight}
  {x y : Sent}

theorem OrderedHop.moves (h : net.OrderedHop vcs adaptive dest s x t)
    (hs : net.Underway vcs cl dest s) {d : ℕ} (hd : x.port.toNat / 2 = d) :
    if x.port.toNat % 2 = 0 then coord net.k t.router d = coord net.k s.router d + 1 ∧
      coord net.k t.router d ≤ coord net.k dest d
    else coord net.k t.router d + 1 = coord net.k s.router d ∧
      coord net.k dest d ≤ coord net.k t.router d := by
  obtain ⟨i, -, hdiff, -, hp⟩ := @dorNextMesh_of_ne net vcs _ _ hs.router_lt hs.dest_lt
    (fun heq => h.mesh.differs (heq ▸ rfl)) (!net.order vcs adaptive x)
  rw [← Int.toNat_natCast (dorNextMesh ..), ← h.port_eq] at hp
  have hmove := coord_neighbour hs.router_lt h.mesh.port_lt
  rw [← h.next, hd] at hmove
  obtain rfl : i = d := by
    rw [← hd, hp]
    split <;> omega
  have hhere := net.coord_lt s.router i
  have hthere := net.coord_lt dest i
  unfold move RingWay.next prev CKNCube.toRight at hmove
  rw [hp] at hmove ⊢
  split_ifs at hmove ⊢ <;> simp_all <;> omega

/-- The rank of a channel for XY packets, or for YX packets. -/
def channelRank (net : KNCube) (xy : Bool) (router port : ℕ) : ℕ ×ₗ ℕ :=
  let here := coord net.k router (port / 2)
  toLex (if xy then port / 2 else net.n - port / 2, if port % 2 = 0 then here else net.k - here)

theorem channelRank_lt (hs : net.Underway vcs cl dest s) (ht : net.Underway vcs cl dest t)
    (hhop : net.OrderedHop vcs adaptive dest s x t) (hhop' : net.OrderedHop vcs adaptive dest t y u)
    (hkept : net.order vcs adaptive y = net.order vcs adaptive x) :
    net.channelRank (net.order vcs adaptive x) s.router x.port.toNat <
      net.channelRank (net.order vcs adaptive y) t.router y.port.toNat := by
  have hlt := hhop.mesh.port_lt
  have hlt' := hhop'.mesh.port_lt
  rw [hkept, channelRank, channelRank, Prod.Lex.toLex_lt_toLex]
  by_cases heq : x.port.toNat / 2 = y.port.toNat / 2
  · -- further along, in the same direction
    have hmoves := hhop.moves hs heq
    have hmoves' := hhop'.moves ht rfl
    have hhere := net.coord_lt s.router (y.port.toNat / 2)
    rw [heq]
    refine .inr ⟨rfl, ?_⟩
    dsimp only
    split_ifs at hmoves hmoves' ⊢ <;> omega
  · have hlead : ¬ Leads (!net.order vcs adaptive x) (y.port.toNat / 2) (x.port.toNat / 2) :=
      fun h => hhop'.mesh.differs (hhop.next ▸ hhop.mesh.agrees _ (by omega) h)
    unfold Leads at hlead
    left
    cases hb : net.order vcs adaptive x <;> simp [hb] at hlead ⊢ <;> omega

section SameRange

variable {b e : ℤ} (hsame : ∀ cl, vcs.gBeginVCs cl = b ∧ vcs.gEndVCs cl = e)
  (heven : Even (e - b + 1))

include hsame heven

theorem orderedHop_of_hop (hs : net.Underway vcs cl dest s)
    (hx : (net.flights vcs (xyYxFunction adaptive)).outcome s (.hop x t)) :
    net.OrderedHop vcs adaptive dest s x t ∧ net.Underway vcs cl dest t ∧
      x.channel = 2 * net.n * s.router + x.port.toNat ∧
      net.order vcs adaptive x = decide (x.flit.vc < b + (e - b + 1) / 2) := by
  have heven' : Even (vcs.gEndVCs cl - vcs.gBeginVCs cl + 1) := by rwa [(hsame cl).1, (hsame cl).2]
  have h2 : vcs.gBeginVCs cl < vcs.gEndVCs cl := by
    obtain ⟨m, hm⟩ := heven'
    have := vcs.begin_le_end cl
    omega
  rcases xyYx_outcome hs h2 hx with ⟨-, hleave⟩ | ⟨x', t', -, heq, hhop⟩
  · cases hleave
  cases heq
  have hchannel := channelAt_port hs.router_lt hhop.mesh.port_lt
  have hport := hhop.port_eq
  have hsent : x.channel = 2 * net.n * s.router + x.port.toNat ∧ x.flit = t.flit := by
    obtain ⟨c, hc, hdecided⟩ := hx
    rw [← hc.router] at hchannel ⊢
    generalize gRoutingFunctionMap _ _ c = res at hdecided
    generalize ho : Outcome.hop x t = o at hdecided
    cases hdecided <;> grind [sentTo]
  obtain ⟨c, hc⟩ := t.exists_calls
  have hin : c.inChannel < 2 * (net.globals vcs).gN := hc.inChannel ▸ hhop.inPort_lt
  have horder := order_of_even heven' hhop hs hc
  rw [xThenY, if_pos hin] at horder
  simp only [classRange, globals, VCRange.available, hc.flit, ← hsent.2, hsame] at horder
  exact ⟨hhop, hhop.underway hs h2, hsent.1, horder.symm⟩

/-- **No deadlock among XY and YX packets.**  If all classes have the same VCs, an even number of
them, no channels and VCs wait for each other in a circle. -/
theorem xyYx_acyclic : (net.flights vcs (xyYxFunction adaptive)).Acyclic Sent.vcHeld := by
  refine RouteSystem.acyclic_of_rank (fun held => net.channelRank
    (decide (held.2 < b + (e - b + 1) / 2)) (held.1 / (2 * net.n)) (held.1 % (2 * net.n))) ?_
  rintro _ _ ⟨s, t, u, x, y, hroute, hx, hy, rfl, rfl⟩
  obtain ⟨cl, dest, hs⟩ : ∃ cl dest, net.Underway vcs cl dest s :=
    hroute.holds (fun s => ∃ cl dest, net.Underway vcs cl dest s)
      (fun s hstart => ⟨_, _, (underway_of_start (injectsClass_xyYx adaptive) hstart).1⟩)
      fun s a t ⟨cl, dest, hs⟩ hhop => ⟨cl, dest, (orderedHop_of_hop hsame heven hs hhop).2.1⟩
  obtain ⟨hhop, ht, hchannel, horder⟩ := orderedHop_of_hop hsame heven hs hx
  obtain ⟨hhop', -, hchannel', horder'⟩ := orderedHop_of_hop hsame heven ht hy
  have hkept := order_of_even (by rwa [(hsame cl).1, (hsame cl).2]) hhop hs hhop'.calls
  have hlt := hhop.mesh.port_lt
  have hlt' := hhop'.mesh.port_lt
  have hpos : 0 < 2 * net.n := by omega
  simpa [Sent.vcHeld, ← horder, ← horder', hchannel, hchannel', Nat.mul_add_div hpos,
    Nat.mod_eq_of_lt, Nat.div_eq_of_lt, hlt, hlt'] using channelRank_lt hs ht hhop hhop' hkept

end SameRange

theorem xyYx_acyclic_square :
    (KNCube.flights ⟨3, 2, Nat.succ_pos 2⟩ CKNCube.fourVCs (xyYxFunction false)).Acyclic
      Sent.vcHeld :=
  xyYx_acyclic (fun _ => ⟨rfl, rfl⟩) (by decide)

end BookSim.KNCube
