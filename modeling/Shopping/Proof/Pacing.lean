import Shopping.Lib.Pacer
import Shopping.Node.Loop
import Shopping.Proof.Heartbeats

/-!
# How often a node gossips

The two timers of `run_loop` (`Lib/Pacer.lean`): each is set to an interval of the configuration,
give or take a third of it, and is only looked at once a turn. As long as two consecutive turns
take at most `δ`, gossip goes out at least two thirds of the interval apart and at most four
thirds and `2 * δ` (`gossip_paced`), and its own entry, which a node tells the others, is never
older than that (`Timely.own`).
-/

namespace Shopping

open Lib Node

theorem ofNat_msToUInt64 (i : Int32) : Int32.ofNat (msToUInt64 i).toNat = i := by
  apply Int32.toInt_inj.1
  have h1 := i.le_toInt
  have h2 := i.toInt_lt
  rw [msToUInt64, UInt64.ofInt, UInt64.toNat_ofNat', Int32.toInt_ofNat',
    show Int32.size = 2 ^ 32 from rfl, Int.bmod_def]
  omega

/-- A jitter is at most a third of the interval either way. -/
theorem jitter_bounds {i jitter : Int32} (hi : 0 ≤ i) (h : IsJitter (msToUInt64 i) jitter) :
    -(i.toInt / 3) ≤ jitter.toInt ∧ jitter.toInt ≤ i.toInt / 3 := by
  have h0 : 0 ≤ i.toInt := Int32.le_iff_toInt_le.1 hi
  have hmin := i.le_toInt
  have hmax := i.toInt_lt
  have hsmall : ∀ z : ℤ, -2 ^ 31 ≤ z → z < 2 ^ 31 → z.bmod (2 ^ 32) = z := by
    intro z _ _
    rw [Int.bmod_def]; omega
  unfold IsJitter at h
  dsimp only at h
  rw [ofNat_msToUInt64] at h
  obtain ⟨h1, h2⟩ := h
  rw [Int32.le_iff_toInt_le, Int32.toInt_div, show (3 : Int32).toInt = 3 from rfl] at h1 h2
  rw [Int32.toInt_neg, hsmall (-i.toInt) (by omega) (by omega), Int.neg_tdiv,
    Int.tdiv_eq_ediv_of_nonneg h0, hsmall _ (by omega) (by omega)] at h1
  rw [Int.tdiv_eq_ediv_of_nonneg h0, hsmall _ (by omega) (by omega)] at h2
  exact ⟨h1, h2⟩

/-- What `next_gossip_ts` adds to the clock. -/
def delay (interval jitter : Int32) : ℕ := (interval.toInt + jitter.toInt).toNat

/-- Two thirds of the interval, rounded up. -/
def shortest (interval : Int32) : ℕ := (interval.toInt - interval.toInt / 3).toNat

/-- Four thirds of the interval, rounded down. -/
def longest (interval : Int32) : ℕ := (interval.toInt + interval.toInt / 3).toNat

theorem delay_bounds {i jitter : Int32} (hi : 0 ≤ i) (h : IsJitter (msToUInt64 i) jitter) :
    shortest i ≤ delay i jitter ∧ delay i jitter ≤ longest i := by
  have := jitter_bounds hi h
  unfold delay shortest longest
  omega

theorem toNat_nextGossipTs {i jitter : Int32} {now : UInt64} (hi : 0 ≤ i)
    (hj : IsJitter (msToUInt64 i) jitter) (hroom : now.toNat + 2 ^ 32 ≤ 2 ^ 64) :
    (nextGossipTs now (msToUInt64 i) jitter).toNat = now.toNat + delay i jitter := by
  have := jitter_bounds hi hj
  have h0 : 0 ≤ i.toInt := Int32.le_iff_toInt_le.1 hi
  have hmax := i.toInt_lt
  rw [nextGossipTs, msToUInt64, UInt64.toNat_add, UInt64.toNat_add, UInt64.ofInt, UInt64.ofInt,
    UInt64.toNat_ofNat', UInt64.toNat_ofNat', delay]
  omega

/-- The timers of `run_loop`. -/
inductive Timer
  | state
  | discovery

namespace Timer

def interval (c : Intervals) : Timer → Int32
  | state => c.gossipIntervalMs
  | discovery => c.discoveryIntervalMs

/-- The reading from which the first deadline is counted, and its jitter. -/
def armed (e : Entry) : Timer → UInt64 × Int32
  | state => (e.stateArm, e.stateJitter)
  | discovery => (e.discoveryArm, e.discoveryJitter)

/-- When a message of the timer was sent. -/
def time : Timer → Wake → Option ℕ
  | state, .stateTimer now _ => some now.toNat
  | discovery, .discoveryTimer _ gossipNow => some gossipNow.toNat
  | _, _ => none

/-- When the messages of the timer were sent. -/
def times (T : Timer) (ws : List Wake) : List ℕ := ws.filterMap T.time

/-- A turn, as the timer sees it. -/
def tick (c : Intervals) (t : Turn) : Timer → Tick
  | state =>
    { first := t.stateCheck.toNat
      check := t.stateCheck.toNat
      stamp := t.stateNow.toNat
      rearm := t.stateRearm.toNat
      last := t.discoveryRearm.toNat
      delay := delay c.gossipIntervalMs t.stateJitter }
  | discovery =>
    { first := t.stateCheck.toNat
      check := t.discoveryCheck.toNat
      stamp := t.gossipNow.toNat
      rearm := t.discoveryRearm.toNat
      last := t.discoveryRearm.toNat
      delay := delay c.discoveryIntervalMs t.discoveryJitter }

/-- The one of the two deadlines that is the timer's. -/
def deadline (stateTs discoveryTs : UInt64) : Timer → UInt64
  | state => stateTs
  | discovery => discoveryTs

end Timer

/-- The clock does not go back in a turn and is far from its end, and the jitters are as
`next_gossip_ts` draws them. -/
structure Turn.InOrder (c : Intervals) (t : Turn) : Prop where
  stateNow : t.stateCheck ≤ t.stateNow
  stateRearm : t.stateNow ≤ t.stateRearm
  discoveryCheck : t.stateRearm ≤ t.discoveryCheck
  evictNow : t.discoveryCheck ≤ t.evictNow
  gossipNow : t.evictNow ≤ t.gossipNow
  discoveryRearm : t.gossipNow ≤ t.discoveryRearm
  stateJitter : IsJitter (msToUInt64 c.gossipIntervalMs) t.stateJitter
  discoveryJitter : IsJitter (msToUInt64 c.discoveryIntervalMs) t.discoveryJitter
  room : t.discoveryRearm.toNat + 2 ^ 32 ≤ 2 ^ 64

/-- The turn `u` follows `t`; the two take at most `δ`. -/
structure Turn.Next (δ : ℕ) (t u : Turn) : Prop where
  after : t.discoveryRearm ≤ u.stateCheck
  within : u.discoveryRearm.toNat ≤ t.stateCheck.toNat + δ

/-- A loop that is entered by `e` and makes the turns `ts` on time. -/
structure Timely (c : Intervals) (δ : ℕ) (e : Entry) (ts : List Turn) : Prop where
  intervals : ∀ T : Timer, 0 ≤ T.interval c
  discoveryArm : e.stateArm ≤ e.discoveryArm
  now : e.discoveryArm ≤ e.now
  stateJitter : IsJitter (msToUInt64 c.gossipIntervalMs) e.stateJitter
  discoveryJitter : IsJitter (msToUInt64 c.discoveryIntervalMs) e.discoveryJitter
  room : e.now.toNat + 2 ^ 32 ≤ 2 ^ 64
  turns : ∀ t ∈ ts, t.InOrder c
  first : ∀ t ∈ ts.head?, e.now ≤ t.stateCheck ∧ t.discoveryRearm.toNat ≤ e.stateArm.toNat + δ
  next : ts.IsChain (Turn.Next δ)

variable {c : Intervals} {δ : ℕ} {e : Entry} {t : Turn} {ts : List Turn}

theorem Turn.InOrder.tick (h : t.InOrder c) (hc : ∀ T : Timer, 0 ≤ T.interval c) (T : Timer) :
    (T.tick c t).Ordered (shortest (T.interval c)) (longest (T.interval c)) := by
  have h1 := UInt64.le_iff_toNat_le.1 h.stateNow
  have h2 := UInt64.le_iff_toNat_le.1 h.stateRearm
  have h3 := UInt64.le_iff_toNat_le.1 h.discoveryCheck
  have h4 := UInt64.le_iff_toNat_le.1 h.evictNow
  have h5 := UInt64.le_iff_toNat_le.1 h.gossipNow
  have h6 := UInt64.le_iff_toNat_le.1 h.discoveryRearm
  cases T with
  | state =>
    have hd := delay_bounds (hc .state) h.stateJitter
    exact ⟨le_rfl, h1, h2, by dsimp only [Timer.tick]; omega, hd.1, hd.2⟩
  | discovery =>
    have hd := delay_bounds (hc .discovery) h.discoveryJitter
    refine ⟨?_, ?_, h6, le_rfl, hd.1, hd.2⟩ <;> dsimp only [Timer.tick] <;> omega

/-- A turn sends a timer's message iff it finds the deadline passed, and sets the next one. -/
theorem Timer.wakes_times (T : Timer) (h : t.InOrder c) (hc : ∀ T : Timer, 0 ≤ T.interval c)
    (stateTs discoveryTs : UInt64) :
    T.times (t.wakes stateTs discoveryTs) =
      (if (T.deadline stateTs discoveryTs).toNat ≤ (T.tick c t).check then [(T.tick c t).stamp]
        else []) ∧
    (T.deadline (t.nextState c stateTs) (t.nextDiscovery c discoveryTs)).toNat =
      if (T.deadline stateTs discoveryTs).toNat ≤ (T.tick c t).check then
        (T.tick c t).rearm + (T.tick c t).delay
      else (T.deadline stateTs discoveryTs).toNat := by
  have hframes : T.times t.frames = [] := by
    unfold Timer.times Turn.frames
    cases T <;> cases t.client <;> cases t.gossip <;> cases t.discovery <;> rfl
  have hroom := h.room
  have h3 := UInt64.le_iff_toNat_le.1 h.discoveryCheck
  have h4 := UInt64.le_iff_toNat_le.1 h.evictNow
  have h5 := UInt64.le_iff_toNat_le.1 h.gossipNow
  have h6 := UInt64.le_iff_toNat_le.1 h.discoveryRearm
  unfold Turn.wakes
  rw [Timer.times, List.filterMap_append, ← Timer.times, hframes, List.nil_append]
  cases T with
  | state =>
    have hdue : t.StateDue stateTs ↔ stateTs.toNat ≤ t.stateCheck.toNat := UInt64.le_iff_toNat_le
    have hearly : t.stateRearm.toNat + 2 ^ 32 ≤ 2 ^ 64 := by omega
    have hnext := toNat_nextGossipTs (hc .state) h.stateJitter hearly
    unfold Turn.nextState
    simp only [Timer.deadline, Timer.tick, ← hdue]
    constructor
    · split <;> split <;> rfl
    · split
      · exact hnext
      · rfl
  | discovery =>
    have hdue : t.DiscoveryDue discoveryTs ↔ discoveryTs.toNat ≤ t.discoveryCheck.toNat :=
      UInt64.le_iff_toNat_le
    have hnext := toNat_nextGossipTs (hc .discovery) h.discoveryJitter hroom
    unfold Turn.nextDiscovery
    simp only [Timer.deadline, Timer.tick, ← hdue]
    constructor
    · split <;> split <;> rfl
    · split
      · exact hnext
      · rfl

/-- The messages of a timer are those of a loop that is paced by it. -/
theorem Timer.wakesOf_times (T : Timer) (hc : ∀ T : Timer, 0 ≤ T.interval c) :
    ∀ (ts : List Turn) (stateTs discoveryTs : UInt64), (∀ t ∈ ts, t.InOrder c) →
      T.times (wakesOf c stateTs discoveryTs ts) =
        stamps (T.deadline stateTs discoveryTs).toNat (ts.map fun t => T.tick c t) := by
  intro ts
  induction ts with
  | nil => intro _ _ _; rfl
  | cons t ts ih =>
    intro stateTs discoveryTs hts
    rw [List.forall_mem_cons] at hts
    obtain ⟨htimes, hnext⟩ := T.wakes_times hts.1 hc stateTs discoveryTs
    have hrest := ih (t.nextState c stateTs) (t.nextDiscovery c discoveryTs) hts.2
    rw [wakesOf, Timer.times, List.filterMap_append, ← Timer.times, ← Timer.times, htimes, hrest, hnext,
      List.map_cons, stamps]
    split <;> rfl

/-- Only the discovery timer stamps the node's own entry. -/
theorem wake_own {pf : Platform} {n n' : Node} {w : Wake} {own : NodeInfo} (h : wake pf n w = .ok n')
    (hown : n.knownNodes.lookup n.cfg.nodeId = some own) :
    n'.cfg = n.cfg ∧ ∃ own', n'.knownNodes.lookup n.cfg.nodeId = some own' ∧
      own'.lastSeenTs.toNat = (Timer.discovery.time w).getD own.lastSeenTs.toNat := by
  cases w with
  | clientFrame env frame =>
    obtain ⟨db, new, heq, -⟩ := (handleClientFrame_turn pf env n frame).state_eq
    rw [show n.handleClientFrame pf env frame = .ok n' from h] at heq
    obtain rfl : n' = _ := heq
    exact ⟨rfl, own, hown, rfl⟩
  | gossipFrame env frame =>
    obtain ⟨db, heq, -⟩ := handleGossipFrame_state pf env n frame
    rw [show n.handleGossipFrame pf env frame = .ok n' from h] at heq
    obtain rfl : n' = _ := heq
    exact ⟨rfl, own, hown, rfl⟩
  | discoveryFrame frame =>
    have hsame := handleDiscoveryFrame_same pf n frame
    rw [show n.handleDiscoveryFrame pf frame = .ok n' from h] at hsame
    refine ⟨hsame.cfg, own, ?_, rfl⟩
    change n.handleDiscoveryFrame pf frame = .ok n' at h
    unfold handleDiscoveryFrame at h
    split at h
    · cases h
    · rename_i m _
      split at h
      · cases h; exact hown
      · have hknown := (updateKnownNodes_known m.nodes h).2
        obtain ⟨e, he⟩ := Option.isSome_iff_exists.1 (AList.lookup_isSome.2 (show
          n.cfg.nodeId ∈ n'.knownNodes by
            rw [hknown, UMap.mem_renewAll]
            exact Or.inl (AList.lookup_isSome.1 (by rw [hown]; rfl))))
        rw [hknown] at he ⊢
        rcases (UMap.renewAll_spec _ he).1 with hold | ho
        · rw [he, ← hold, hown]
        · -- no message is about the node that receives it
          obtain ⟨-, hne, heq⟩ := mem_offers.1 ho
          exact absurd heq.symm hne
  | stateTimer now calls =>
    obtain ⟨new, heq, -⟩ := performShardGossip_eq now calls n
    have h : (.ok (performShardGossip now calls n) : Method Node) = .ok n' := h
    cases h
    rw [heq]
    exact ⟨rfl, own, hown, rfl⟩
  | discoveryTimer evictNow gossipNow =>
    have h : ((evictDeadNodes evictNow n).bind fun n => .ok (performDiscoveryGossip gossipNow n)) =
        .ok n' := h
    obtain ⟨n1, he, h⟩ := Throws.bind_eq_ok.1 h
    cases h
    have hcfg : n1.cfg = n.cfg := (evictDeadNodes_eq_ok he).cfg
    obtain ⟨e, hl, -⟩ := evictDeadNodes_own he (AList.lookup_isSome.1 (by rw [hown]; rfl))
    obtain ⟨hknown, -⟩ := performDiscoveryGossip_tells gossipNow n1
    refine ⟨(performDiscoveryGossip_eq gossipNow n1).choose_spec.2.2.2.trans hcfg,
      { e with lastSeenTs := gossipNow }, ?_, rfl⟩
    rw [hknown, hcfg, lookup_stamp hl, if_pos rfl]

/-- **The own entry of a node** is stamped with the time of its last discovery gossip. -/
theorem runLoop_own {pf : Platform} (ws : List Wake) : ∀ {n n' : Node} {own : NodeInfo},
    runLoop pf n ws = .ok n' → n.knownNodes.lookup n.cfg.nodeId = some own →
    ∃ own', n'.knownNodes.lookup n.cfg.nodeId = some own' ∧
      own'.lastSeenTs.toNat = (Timer.discovery.times ws).getLast?.getD own.lastSeenTs.toNat := by
  induction ws with
  | nil => intro n n' own h hown; cases h; exact ⟨own, hown, rfl⟩
  | cons w ws ih =>
    intro n n' own h hown
    rw [runLoop] at h
    obtain ⟨n1, hw, h⟩ := Throws.bind_eq_ok.1 h
    obtain ⟨hcfg, own1, hown1, hts1⟩ := wake_own hw hown
    rw [← hcfg] at hown1
    obtain ⟨own', hown', hts⟩ := ih h hown1
    refine ⟨own', hcfg ▸ hown', ?_⟩
    rw [hts, hts1]
    unfold Timer.times
    rw [List.filterMap_cons]
    cases hw : Timer.discovery.time w with
    | none => rfl
    | some time => dsimp only; rw [List.getLast?_cons, Option.getD_some, Option.getD_some]

section

variable {pf : Platform} {cfg : NodeConfig} {db : SqliteDb} {l : Loop}

/-- The turns after the entry, as a timer sees them. -/
theorem Timely.chain (h : Timely c δ e ts) (T : Timer) :
    (Tick.arming (T.armed e).1.toNat :: ts.map fun t => T.tick c t).IsChain (Tick.Next δ) := by
  have hfirst : ∀ t, (T.tick c t).first = t.stateCheck.toNat ∧
      (T.tick c t).last = t.discoveryRearm.toNat := by
    intro t; cases T <;> exact ⟨rfl, rfl⟩
  have harm : e.stateArm.toNat ≤ (T.armed e).1.toNat ∧ (T.armed e).1.toNat ≤ e.now.toNat := by
    have h1 := UInt64.le_iff_toNat_le.1 h.discoveryArm
    have h2 := UInt64.le_iff_toNat_le.1 h.now
    cases T <;> dsimp only [Timer.armed] <;> omega
  rw [List.isChain_cons]
  refine ⟨?_, List.isChain_map_of_isChain _ ?_ h.next⟩
  · intro u hu
    rw [List.head?_map, Option.mem_def, Option.map_eq_some_iff] at hu
    obtain ⟨t, ht, rfl⟩ := hu
    obtain ⟨hle, hδ⟩ := h.first t ht
    have hle := UInt64.le_iff_toNat_le.1 hle
    have := hfirst t
    constructor <;> dsimp only [Tick.arming] <;> omega
  · intro t u htu
    have hle := UInt64.le_iff_toNat_le.1 htu.after
    have hδ := htu.within
    have := hfirst t
    have := hfirst u
    constructor <;> omega

/-- The first deadline of a timer. -/
theorem Timely.armed (h : Timely c δ e ts) (T : Timer)
    (he : Loop.enter pf c e (Node.new cfg db e.now) = .ok l) :
    (T.armed e).1.toNat ≤ e.now.toNat ∧ ∃ d, shortest (T.interval c) ≤ d ∧ d ≤ longest (T.interval c) ∧
      (T.deadline l.nextStateGossipTs l.nextDiscoveryGossipTs).toNat = (T.armed e).1.toNat + d := by
  have h1 := UInt64.le_iff_toNat_le.1 h.discoveryArm
  have h2 := UInt64.le_iff_toNat_le.1 h.now
  have h3 := h.room
  obtain ⟨-, hs, hd⟩ := Loop.onNode_eq_ok he
  cases T with
  | state =>
    obtain ⟨hlo, hhi⟩ := delay_bounds (h.intervals .state) h.stateJitter
    refine ⟨by dsimp only [Timer.armed]; omega, _, hlo, hhi, ?_⟩
    rw [Timer.deadline, hs]
    exact toNat_nextGossipTs (h.intervals .state) h.stateJitter (by omega)
  | discovery =>
    obtain ⟨hlo, hhi⟩ := delay_bounds (h.intervals .discovery) h.discoveryJitter
    refine ⟨h2, _, hlo, hhi, ?_⟩
    rw [Timer.deadline, hd]
    exact toNat_nextGossipTs (h.intervals .discovery) h.discoveryJitter (by omega)

/-- What a loop finds to do in its turns. -/
def Loop.wakes (c : Intervals) (l : Loop) (ts : List Turn) : List Wake :=
  wakesOf c l.nextStateGossipTs l.nextDiscoveryGossipTs ts

theorem Timely.of_append {us : List Turn} (h : Timely c δ e (ts ++ us)) : Timely c δ e ts where
  intervals := h.intervals
  discoveryArm := h.discoveryArm
  now := h.now
  stateJitter := h.stateJitter
  discoveryJitter := h.discoveryJitter
  room := h.room
  turns t ht := h.turns t (List.mem_append_left _ ht)
  first t ht := h.first t (by
    cases ts with
    | nil => cases ht
    | cons t' ts => exact ht)
  next := h.next.left_of_append

theorem Timely.ordered (h : Timely c δ e ts) (T : Timer) : ∀ u ∈ ts.map fun t => T.tick c t,
    u.Ordered (shortest (T.interval c)) (longest (T.interval c)) := by
  intro u hu
  obtain ⟨t, ht, rfl⟩ := List.mem_map.1 hu
  exact (h.turns t ht).tick h.intervals T

/-- The messages of a timer are those of a loop that is paced by it, from the first deadline on. -/
theorem Timely.stamps (h : Timely c δ e ts) (T : Timer)
    (he : Loop.enter pf c e (Node.new cfg db e.now) = .ok l) :
    ∃ d, T.times (l.wakes c ts) = stamps d (ts.map fun t => T.tick c t) ∧
      Armed (shortest (T.interval c)) (longest (T.interval c)) δ
        (Tick.arming (T.armed e).1.toNat) (T.armed e).1.toNat d := by
  obtain ⟨-, d, hlo, hhi, hd⟩ := h.armed T he
  refine ⟨_, T.wakesOf_times h.intervals ts _ _ h.turns, ?_⟩
  rw [hd]
  exact .start hlo hhi

theorem Timely.paced (h : Timely c δ e ts) (T : Timer)
    (he : Loop.enter pf c e (Node.new cfg db e.now) = .ok l) :
    Paced (shortest (T.interval c)) (longest (T.interval c) + 2 * δ)
      ((T.armed e).1.toNat :: T.times (l.wakes c ts)) := by
  obtain ⟨d, htimes, harmed⟩ := h.stamps T he
  rw [htimes]
  exact (stamps_paced (h.chain T) (h.ordered T) harmed).1

/-- **The own entry is recent**: all through a turn `u`, the entry it begins with is. -/
theorem Timely.own {u : Turn} (h : Timely c δ e (ts ++ [u]))
    (he : Loop.enter pf c e (Node.new cfg db e.now) = .ok l) {l' : Loop}
    (hl' : l.run pf c ts = .ok l') : ∃ own, l'.node.knownNodes.lookup cfg.nodeId = some own ∧
      u.discoveryRearm.toNat ≤ own.lastSeenTs.toNat + (longest c.discoveryIntervalMs + 2 * δ) := by
  have hts := h.of_append
  have hrun : runLoop pf l.node (l.wakes c ts) = .ok l'.node := by
    rw [Loop.wakes, ← Loop.run_node, hl']
    rfl
  -- the entry is stamped on entering the loop, and by every discovery gossip
  obtain ⟨hself, hfrom⟩ := enterLoop_eq_ok (Loop.onNode_eq_ok he).1
  obtain ⟨own, hown⟩ := Option.isSome_iff_exists.1 (AList.lookup_isSome.2 hself)
  obtain ⟨peer, -, -, rfl⟩ := hfrom _ _ hown
  have hcfg : l.node.cfg = cfg := by
    have := (enterLoop_same pf e.now (Node.new cfg db e.now)).cfg
    rw [(Loop.onNode_eq_ok he).1] at this; exact this
  rw [← hcfg] at hown
  obtain ⟨own', hown', hlast⟩ := runLoop_own (l.wakes c ts) hrun hown
  refine ⟨own', hcfg ▸ hown', ?_⟩
  -- `u` ends at most `δ` after the turn before began
  have hchain := h.chain .discovery
  rw [List.map_append, ← List.cons_append, List.isChain_append] at hchain
  obtain ⟨-, -, hnext⟩ := hchain
  have hwithin := (hnext _ (List.getLast?_eq_some_getLast (List.cons_ne_nil _ _)) _ rfl).within
  obtain ⟨d, htimes, harmed⟩ := hts.stamps .discovery he
  obtain ⟨s, hs, -, hrecent⟩ := (stamps_paced (hts.chain .discovery) (hts.ordered .discovery)
    harmed).2 _ (List.getLast_mem (List.cons_ne_nil _ _))
  have hnew : s ≤ own'.lastSeenTs.toNat := by
    rw [← htimes] at hs
    have hmax := (hts.paced .discovery he).le_getLast s hs
    have hnow := (hts.armed .discovery he).1
    rw [hlast]
    cases hl : (Timer.discovery.times (l.wakes c ts)).getLast? with
    | none => rw [hl, Option.getD_none] at hmax; exact hmax.trans hnow
    | some time => rw [hl, Option.getD_some] at hmax; exact hmax
  change u.discoveryRearm.toNat ≤ _ at hwithin
  change _ ≤ s + (longest c.discoveryIntervalMs + δ) at hrecent
  omega

end

end Shopping
