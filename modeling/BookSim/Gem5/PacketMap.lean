/-
# PacketMap — the messages of the packets in the network

`BooksimNetwork` keeps in `m_packet_map` the message of every packet that is in the network
and hands it to the switch of its destination when the packet retires.

    putBooksimMessage        file a message under the pid of its packet, a `long`
    retire                   one round of `RetirePackets`, for a packet the wrapper reports
    enqueueBooksimMessage    hand the message over and erase the entry

`enqueueBooksimMessage` takes its pid as an `int`, so that each round looks under `toInt pid`.
A history is any interleaving of filings under new pids and retirements of packets that are
in the network (`History`).  Every retirement should release the message of its own packet
and nothing else (`ReleasesOwn`), and `releases_own_iff` says that it does exactly where the
pids that retire are below 2^31.
-/
import BookSim.Flit
import BookSim.Lib.Table

namespace BookSim.Gem5.BooksimNetwork

open List
open Function

-- `MsgPtr`, whose `default` is the null pointer

variable {α : Type} [Inhabited α]

/-! ## The map -/

/-- `BooksimMessage`; a switch is given by its place in `m_switches`, and `none` is null. -/
structure BooksimMessage (α : Type) where
  networkSwitch : Option ℕ
  dest : ℕ
  subnet : ℤ
  msg : α
  deriving DecidableEq

/-- The message that `m_packet_map[pid]` creates where there is none. -/
def BooksimMessage.empty : BooksimMessage α := ⟨none, 0, 0, default⟩

/-- One call of `EnqueueMessage`, with the switch that it is made to. -/
structure Delivery (α : Type) where
  networkSwitch : ℕ
  dest : ℕ
  subnet : ℤ
  msg : α
  deriving DecidableEq

/-- `m_packet_map`, and the deliveries so far. -/
structure PacketMap (α : Type) where
  packetMap : ℤ → Option (BooksimMessage α)
  delivered : List (Delivery α)

namespace PacketMap

def new : PacketMap α := ⟨fun _ => none, []⟩

/-- `putBooksimMessage`; the message is for switch `packetDest`. -/
def putBooksimMessage (s : PacketMap α) (pid : ℤ) (destID : ℕ) (subnet : ℤ) (msg : α)
    (packetDest : ℕ) : PacketMap α :=
  { s with packetMap := update s.packetMap pid (some ⟨some packetDest, destID, subnet, msg⟩) }

/-- `enqueueBooksimMessage`, once its argument is an `int`. -/
def enqueueBooksimMessage (s : PacketMap α) (pid : ℤ) : PacketMap α :=
  let message := (s.packetMap pid).getD .empty
  { packetMap := update s.packetMap pid none
    delivered := match message.networkSwitch with
      | some sw => s.delivered ++ [⟨sw, message.dest, message.subnet, message.msg⟩]
      | none => s.delivered }

/-- One round of `RetirePackets` that does not end it. -/
def retire (s : PacketMap α) (pid : ℤ) : PacketMap α :=
  if -1 < pid then s.enqueueBooksimMessage (toInt pid) else s

end PacketMap

/-! ## Histories -/

/-- A message is filed, with the arguments of `putBooksimMessage`, or a packet retires. -/
inductive Event (α : Type) where
  | put (pid : ℤ) (message : Delivery α)
  | retire (pid : ℤ)
  deriving DecidableEq

def PacketMap.step (s : PacketMap α) : Event α → PacketMap α
  | .put pid m => s.putBooksimMessage pid m.dest m.subnet m.msg m.networkSwitch
  | .retire pid => s.retire pid

def run (events : List (Event α)) : PacketMap α := events.foldl PacketMap.step .new

/-- The histories in which every pid is filed once, as a `long` that is not negative, and a
packet retires once, after its message was filed. -/
inductive History : List (Event α) → Prop
  | nil : History []
  | put {events : List (Event α)} {pid : ℤ} {m : Delivery α} : History events →
      0 ≤ pid → pid < 2 ^ 63 → (∀ m', .put pid m' ∉ events) → History (events ++ [.put pid m])
  | retire {events : List (Event α)} {pid : ℤ} {m : Delivery α} : History events →
      .put pid m ∈ events → .retire pid ∉ events → History (events ++ [.retire pid])

/-- The retirement of `pid` after `before` delivers what was filed under `pid` and removes
that entry only. -/
structure Released (before : List (Event α)) (pid : ℤ) : Prop where
  delivers : ∃ m, .put pid m ∈ before ∧
    ((run before).step (.retire pid)).delivered = (run before).delivered ++ [m]
  removes : ((run before).step (.retire pid)).packetMap = update (run before).packetMap pid none

/-- Each retired packet releases its own message, and when all have retired nothing is left. -/
structure ReleasesOwn (events : List (Event α)) : Prop where
  each : ∀ before pid after, events = before ++ .retire pid :: after → Released before pid
  emptied : (∀ pid m, .put pid m ∈ events → .retire pid ∈ events) →
    ∀ pid, (run events).packetMap pid = none

/-! ## One retirement -/

theorem run_snoc (events : List (Event α)) (e : Event α) :
    run (events ++ [e]) = (run events).step e := foldl_concat ..

theorem step_retire {s : PacketMap α} {pid : ℤ} (hpid : 0 ≤ pid) :
    (s.step (.retire pid)).packetMap = update s.packetMap (toInt pid) none :=
  congrArg PacketMap.packetMap (if_pos (by omega : -1 < pid))

theorem step_retire_delivered {s : PacketMap α} {pid : ℤ} {m : Delivery α} (hpid : 0 ≤ pid)
    (hfit : toInt pid = pid)
    (hs : s.packetMap pid = some ⟨some m.networkSwitch, m.dest, m.subnet, m.msg⟩) :
    (s.step (.retire pid)).delivered = s.delivered ++ [m] := by
  have hround : s.step (.retire pid) = s.enqueueBooksimMessage pid := by
    rw [PacketMap.step, PacketMap.retire, if_pos (by omega), hfit]
  rw [hround, PacketMap.enqueueBooksimMessage, hs]
  rfl

/-- The entries of the map are the messages that were filed and whose packet has not retired. -/
def Stored (events : List (Event α)) : Prop :=
  ∀ pid message, (run events).packetMap pid = some message ↔
    .retire pid ∉ events ∧ ∃ m : Delivery α, .put pid m ∈ events ∧
      message = ⟨some m.networkSwitch, m.dest, m.subnet, m.msg⟩

theorem released_iff {events : List (Event α)} {pid : ℤ} {m : Delivery α} (hs : Stored events)
    (hput : .put pid m ∈ events) (hnew : .retire pid ∉ events) (hpid : 0 ≤ pid) :
    Released events pid ↔ pid < 2 ^ 31 := by
  have hentry := (hs pid _).mpr ⟨hnew, m, hput, rfl⟩
  constructor
  · -- the entry that is erased is the one under `toInt pid`
    intro h
    have herased := congrFun h.removes pid
    rw [step_retire hpid, update_self] at herased
    have hkey : toInt pid = pid := by
      by_contra hne
      rw [update_of_ne (Ne.symm hne), hentry] at herased
      cases herased
    exact (toInt_eq_self_iff.mp hkey).2
  · intro hfit
    have hkey := toInt_eq hpid hfit
    exact ⟨⟨m, hput, step_retire_delivered hpid hkey hentry⟩, by rw [step_retire hpid, hkey]⟩

/-! ## Whole histories -/

section History

variable {events : List (Event α)} {pid : ℤ}

omit [Inhabited α] in

theorem History.nonneg (h : History events) {m : Delivery α} (hput : .put pid m ∈ events) :
    0 ≤ pid := by
  induction h with
  | nil => cases hput
  | put _ hpid _ _ ih =>
    rcases mem_snoc.mp hput with hput | hput
    · exact ih hput
    · cases hput
      exact hpid
  | retire _ _ _ ih =>
    rcases mem_snoc.mp hput with hput | hput
    · exact ih hput
    · cases hput

omit [Inhabited α] in

theorem History.filed (h : History events) (hretire : .retire pid ∈ events) :
    ∃ m, .put pid m ∈ events := by
  have hlater {es : List (Event α)} (e : Event α) :
      (∃ m, .put pid m ∈ es) → ∃ m, .put pid m ∈ es ++ [e] :=
    fun ⟨m, hm⟩ => ⟨m, mem_append_left _ hm⟩
  induction h with
  | nil => cases hretire
  | put _ _ _ _ ih =>
    rcases mem_snoc.mp hretire with hretire | hretire
    · exact hlater _ (ih hretire)
    · cases hretire
  | retire _ hput _ ih =>
    rcases mem_snoc.mp hretire with hretire | hretire
    · exact hlater _ (ih hretire)
    · cases hretire
      exact hlater _ ⟨_, hput⟩

theorem History.stored (h : History events)
    (hfit : ∀ pid, .retire pid ∈ events → pid < 2 ^ 31) : Stored events := by
  induction h with
  | nil =>
    intro pid message
    constructor
    · intro hentry
      cases hentry
    · rintro ⟨-, m, hput, -⟩
      cases hput
  | @put events filed m h _ _ hnew ih =>
    intro pid message
    have hs := ih fun pid hpid => hfit pid (mem_append_left _ hpid)
    rw [run_snoc]
    change update (run events).packetMap filed _ pid = _ ↔ _
    by_cases hpid : pid = filed
    · subst hpid
      have hnot : Event.retire pid ∉ events := by
        intro hretire
        obtain ⟨m', hm'⟩ := h.filed hretire
        exact hnew m' hm'
      simp [hnot, hnew, eq_comm]
    · rw [update_of_ne hpid, hs]
      simp [hpid]
  | @retire events retired m h hput _ ih =>
    intro pid message
    have hs := ih fun pid hpid => hfit pid (mem_append_left _ hpid)
    have hnonneg := h.nonneg hput
    have hkey := toInt_eq hnonneg (hfit retired (by simp))
    rw [run_snoc, step_retire hnonneg, hkey]
    by_cases hpid : pid = retired
    · subst hpid
      simp
    · rw [update_of_ne hpid, hs]
      simp [hpid]

theorem each_snoc {e : Event α} :
    (∀ before pid after, events ++ [e] = before ++ .retire pid :: after → Released before pid) ↔
      (∀ before pid after, events = before ++ .retire pid :: after → Released before pid) ∧
        ∀ pid, e = .retire pid → Released events pid := by
  constructor
  · simp_all
  · rintro ⟨hbefore, hlast⟩ before pid after heq
    rcases after.eq_nil_or_concat with rfl | ⟨after, e', rfl⟩
    · obtain ⟨rfl, hlast'⟩ := append_inj' heq rfl
      exact hlast pid (List.cons.inj hlast').1
    · rw [concat_eq_append, ← cons_append, ← append_assoc] at heq
      exact hbefore before pid after (append_inj' heq rfl).1

theorem each_iff (h : History events) :
    (∀ before pid after, events = before ++ .retire pid :: after → Released before pid) ↔
      ∀ pid, .retire pid ∈ events → pid < 2 ^ 31 := by
  induction h with
  | nil => simp
  | put _ _ _ _ ih =>
    rw [each_snoc, ih]
    simp
  | @retire events retired m h hput hnew ih =>
    have hlast (hfit : ∀ pid, .retire pid ∈ events → pid < 2 ^ 31) :=
      released_iff (h.stored hfit) hput hnew (h.nonneg hput)
    rw [each_snoc, ih]
    constructor
    · grind
    · grind

/-- **Each retired packet releases exactly its own message**, and the map is empty once all
have retired, if and only if the pids that retire are numbers of an `int`. -/
theorem releases_own_iff (h : History events) :
    ReleasesOwn events ↔ ∀ pid, .retire pid ∈ events → pid < 2 ^ 31 := by
  refine ⟨fun hown => (each_iff h).mp hown.each, fun hfit => ⟨(each_iff h).mpr hfit, ?_⟩⟩
  intro hall pid
  rw [Option.eq_none_iff_forall_ne_some]
  intro message hentry
  obtain ⟨hnot, m, hput, -⟩ := (h.stored hfit pid message).mp hentry
  exact hnot (hall pid m hput)

end History

/-- Two packets that retire in the order in which they did not come. -/
theorem releases_own_two :
    let first : Delivery ℕ := ⟨1, 4, 2, 7⟩
    let second : Delivery ℕ := ⟨2, 5, 0, 8⟩
    let events := [.put 0 first, .put 1 second, .retire 1, .retire 0]
    History events ∧ ReleasesOwn events := by
  intro first second events
  have hput : History [.put 0 first, .put 1 second] :=
    .put (.put .nil (by decide) (by decide) (by simp)) (by decide) (by decide) (by simp)
  have h : History events :=
    .retire (m := first) (.retire (m := second) hput (by simp) (by simp)) (by simp) (by simp)
  exact ⟨h, (releases_own_iff h).mpr (by simp [events])⟩

/-- The packet 2^32 releases the message of packet 0, and its own message stays. -/
theorem releases_other :
    let first : Delivery ℕ := ⟨1, 4, 2, 7⟩
    let second : Delivery ℕ := ⟨2, 5, 0, 8⟩
    let events := [.put 0 first, .put (2 ^ 32) second, .retire (2 ^ 32)]
    History events ∧ (run events).delivered = [first] ∧ ((run events).packetMap 0).isNone ∧
      ((run events).packetMap (2 ^ 32)).isSome ∧ ¬ ReleasesOwn events := by
  intro first second events
  have hput : History [.put 0 first, .put (2 ^ 32) second] :=
    .put (.put .nil (by decide) (by decide) (by simp)) (by decide) (by decide) (by simp)
  have h : History events := .retire (m := second) hput (by simp) (by simp)
  refine ⟨h, by decide, by decide, by decide, fun hown => ?_⟩
  have hlt := (each_iff h).mp hown.each (2 ^ 32) (by simp [events])
  exact absurd hlt (by decide)

end BookSim.Gem5.BooksimNetwork
