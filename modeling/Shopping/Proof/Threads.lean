import Shopping.Lib.Run
import Shopping.Proof.Calls

/-!
# The client's threads do not get in each other's way

Every run of the three threads keeps to the discipline (`sound_of_run`).

* `no_deadlock`: nobody is left waiting for a lock.
* `calls_defined`: with a sane table (`Sane`), no thread comes to `undefined`.
* `calls_serial`: what is left is what whole calls one after the other leave.
* `races_of_run`: the threads race for the random engine, for the size of the table, and for a
  table in which a row is missing, and for nothing else.

An access is a step, and every thread sees the one before: what the races themselves may do is not
said. A ZMQ call is a step too, and so is taken to return.
-/

namespace Shopping.Client

open Lib API

variable {lax : Prop} {pf : Platform} {answer : Request Str Message → Frame} {origin : Str}
  {table : UMap Int32 (List Str)} {t : Thread} {db : SqliteDb} {as : List Act} {s : State}

/-- The HTTP calls among the actions of a run. -/
def httpCalls (as : List Act) : List Call :=
  as.filterMap fun
    | .call c => if c.thread = .http then some c else none
    | .turn _ => none

/-- HTTP calls one after the other, with what each returned. -/
def Serial (pf : Platform) (answer : Request Str Message → Frame) (origin : Str) :
    SqliteDb → List (Call × Result) → SqliteDb → Prop
  | db, [], db' => db' = db
  | db, x :: log, db' => ∃ db1, x.1.Ends pf answer { origin, db } x.2 db1 ∧
    Serial pf answer origin db1 log db'

theorem Serial.append {log : List (Call × Result)} {db db' db'' : SqliteDb} {c : Call} {r : Result}
    (h : Serial pf answer origin db log db') (hc : c.Ends pf answer { origin, db := db' } r db'') :
    Serial pf answer origin db (log ++ [(c, r)]) db'' := by
  induction log generalizing db with
  | nil =>
    cases h
    exact ⟨db'', hc, rfl⟩
  | cons x log ih =>
    obtain ⟨db1, h1, hrest⟩ := h
    exact ⟨db1, h1, ih hrest⟩

/-- What the HTTP thread has done when it has returned `r`: its calls one after the other, the last
of which returned `r`. -/
def Served (pf : Platform) (answer : Request Str Message → Frame) (origin : Str) (db : SqliteDb)
    (as : List Act) (r : Result) (db' : SqliteDb) : Prop :=
  ∃ log : List (Call × Result), log.map Prod.fst = httpCalls as ∧
    Serial pf answer origin db log db' ∧ ∀ x ∈ log.getLast?, x.2 = r

/-- What each thread's calls are to end with, after the actions `as`. -/
def post (pf : Platform) (answer : Request Str Message → Frame) (origin : Str) (db : SqliteDb)
    (as : List Act) : Thread → Result → (∀ r, Object.Ty r) → Prop
  | .http, r, x => Served pf answer origin db as r (x .db)
  | .gossip, _, _ => True
  | .nodeUpdate, _, _ => True

theorem httpCalls_append (as : List Act) (a : Act) :
    httpCalls (as ++ [a]) = httpCalls as ++ httpCalls [a] :=
  List.filterMap_append

/-- What is no HTTP call leaves the HTTP thread what it has answered for. -/
theorem post_append {a : Act} (ha : httpCalls [a] = []) {r : Result} {x : ∀ r, Object.Ty r}
    (h : post pf answer origin db as t r x) : post pf answer origin db (as ++ [a]) t r x := by
  cases t with
  | http =>
    obtain ⟨log, hlog, hserial, hlast⟩ := h
    exact ⟨log, by rw [hlog, httpCalls_append, ha, List.append_nil], hserial, hlast⟩
  | gossip => trivial
  | nodeUpdate => trivial

/-- Whenever a call begins, one of the strings that its `createUID` draws is free. -/
def EveryFresh (pf : Platform) (answer : Request Str Message → Frame) (origin : Str) (db : SqliteDb)
    (table : UMap Int32 (List Str)) (as : List Act) : Prop :=
  ∀ n u c, runList (State.step pf answer origin) (.start db table) (as.take n) = some u →
    as[n]? = some (.call c) → c.Fresh (u.mem .db)

/-- What is asked of a run is asked of its beginnings. -/
theorem EveryFresh.init {a : Act} (h : EveryFresh pf answer origin db table (as ++ [a])) :
    EveryFresh pf answer origin db table as := by
  intro n u c hu hn
  obtain ⟨hlt, -⟩ := List.getElem?_eq_some_iff.1 hn
  refine h n u c ?_ ?_
  · rwa [List.take_append_of_le_length hlt.le]
  · rwa [List.getElem?_append_left hlt]

/-- The last call is asked on the store as it is then. -/
theorem EveryFresh.last {c : Call} (h : EveryFresh pf answer origin db table (as ++ [.call c]))
    (hrun : runList (State.step pf answer origin) (.start db table) as = some s) :
    c.Fresh (s.mem .db) := by
  refine h as.length s c ?_ ?_
  · rwa [List.take_left]
  · rw [List.getElem?_concat_length]

/-- Only the first call is one of the HTTP thread. -/
theorem EveryFresh.of_head {a : Act} (has : httpCalls as = [])
    (ha : ∀ c, a = .call c → c.Fresh db) : EveryFresh pf answer origin db table (a :: as) := by
  intro n u c hu hn
  cases n with
  | zero =>
    cases hu
    exact ha c (Option.some.inj hn)
  | succ n =>
    have hmem : Act.call c ∈ as := List.mem_of_getElem? hn
    by_cases hc : c.thread = .http
    · have hcalls : c ∈ httpCalls as := List.mem_filterMap.2 ⟨.call c, hmem, if_pos hc⟩
      rw [has] at hcalls
      cases hcalls
    · cases c with
      | createShoppingList => exact absurd rfl hc
      | addItem => exact absurd rfl hc
      | _ => trivial

/-- An HTTP request starts on the store its predecessors left. -/
theorem sound_httpCall (hsane : lax ∨ Sane pf answer table)
    (hs : s.Sound (discipline lax pf answer origin table) (post pf answer origin db as))
    {c : Call} (hc : c.thread = .http) (hfresh : lax ∨ c.Fresh (s.mem .db)) {s' : State}
    (h : s.call c.thread (c.code pf answer origin) = some s') :
    s'.Sound (discipline lax pf answer origin table)
      (post pf answer origin db (as ++ [.call c])) := by
  rw [hc] at h
  obtain ⟨r0, hr0⟩ : ∃ r0, s.proc .http = .ret r0 := Pool.exists_ret_of_call h
  have hsafe := hs.safe .http
  rw [hr0] at hsafe
  obtain ⟨log, hlog, hserial, -⟩ := hsafe.2 s.mem (.refl _)
  have hcode : HttpFrom lax pf answer origin table (s.mem .db) (c.code pf answer origin)
      (c.Ends pf answer { origin, db := s.mem .db }) :=
    HttpFrom.code (a := { origin, db := s.mem .db }) hsane hc hfresh
  refine (hs.call (hcode s.mem rfl) h).mono fun t r y hy => ?_
  cases t with
  | http =>
    rw [Function.update_self] at hy
    refine ⟨log ++ [(c, r)], ?_, hserial.append hy, fun x hx => ?_⟩
    · rw [List.map_append, hlog, httpCalls_append]
      simp [httpCalls, hc]
    · rw [List.getLast?_concat] at hx
      cases hx
      rfl
  | gossip => trivial
  | nodeUpdate => trivial

/-- The other threads return nothing the order of the requests depends on. -/
theorem sound_otherCall (hsane : lax ∨ Sane pf answer table)
    (hs : s.Sound (discipline lax pf answer origin table) (post pf answer origin db as))
    {c : Call} (hc : c.thread ≠ .http) {s' : State}
    (h : s.call c.thread (c.code pf answer origin) = some s') :
    s'.Sound (discipline lax pf answer origin table)
      (post pf answer origin db (as ++ [.call c])) := by
  have hcode : (discipline lax pf answer origin table).Safe c.thread (fun _ _ => True)
      (c.code pf answer origin) (fun _ => none) s.mem := by
    cases c with
    | gossipState x => exact triple_gossipState hsane _ trivial
    | updateCloudNodes x => exact triple_updateCloudNodes hsane _ trivial
    | _ => exact absurd rfl hc
  refine (hs.call hcode h).mono fun t r y hy => post_append (by simp [httpCalls, hc]) ?_
  by_cases ht : t = c.thread
  · subst ht
    cases c with
    | gossipState x => trivial
    | updateCloudNodes x => trivial
    | _ => exact absurd rfl hc
  · rwa [Function.update_of_ne ht] at hy

/-- **Every run of the client keeps to the discipline.** -/
theorem sound_of_run (hsane : lax ∨ Sane pf answer table)
    (hfresh : lax ∨ EveryFresh pf answer origin db table as)
    (hrun : runList (State.step pf answer origin) (.start db table) as = some s) :
    s.Sound (discipline lax pf answer origin table) (post pf answer origin db as) := by
  induction as using List.reverseRecOn generalizing s with
  | nil =>
    cases hrun
    refine .start (fun t => ⟨.ok none, rfl, fun y hy => ?_⟩) (fun _ _ => rfl) (fun r => ?_)
      fun r => ?_
    · cases t with
      | http =>
        have hdb := hy .db (.inr ⟨not_spoils (nomatch ·), .inl rfl⟩)
        exact ⟨[], rfl, hdb.symm, fun x hx => nomatch hx⟩
      | gossip => trivial
      | nodeUpdate => trivial
    · cases r with
      | clientSocket => exact ⟨[], rfl⟩
      | shardEndpoints => exact ⟨[], (fun _ h => nomatch h), rfl⟩
      | db => trivial
      | randomEngine => trivial
    · cases r with
      | shardEndpoints => exact hsane.imp_right Sane.filled
      | _ => trivial
  | append_singleton as a ih =>
    rw [runList_append, Option.bind_eq_some_iff] at hrun
    obtain ⟨s0, hrun0, hstep⟩ := hrun
    have hs := ih (hfresh.imp_right EveryFresh.init) hrun0
    cases a with
    | call c =>
      by_cases hc : c.thread = .http
      · exact sound_httpCall hsane hs hc (hfresh.imp_right fun hfresh => hfresh.last hrun0) hstep
      · exact sound_otherCall hsane hs hc hstep
    | turn t => exact (hs.turn hstep).mono fun t r y hy => post_append rfl hy

/-- Under the lax discipline no run needs a condition: it keeps the lock order and the guards, and
says nothing of undefined code. -/
theorem sound_of_lax_run
    (hrun : runList (State.step pf answer origin) (.start db table) as = some s) :
    s.Sound (discipline True pf answer origin table) (post pf answer origin db as) :=
  sound_of_run (.inl trivial) (.inl trivial) hrun

/-- **No deadlock.** In whatever order the threads take their turns, when none of them has a turn
any more, every call has returned, unless some thread is at `undefined`. -/
theorem no_deadlock
    (hrun : runList (State.step pf answer origin) (.start db table) as = some s) :
    ∀ s', Relation.ReflTransGen Pool.Turns s s' → (∀ t, s'.turn t = none) →
      (∀ t, (s'.proc t).IsRet) ∨ ∃ t, s'.proc t = .undefined :=
  fun _ hs' hend => ((sound_of_lax_run hrun).turns hs').ended hend

/-- Every request is answered with one node. -/
def oneNode (_ : Request Str Message) : Frame :=
  .packed (Message.nodesResponse [] 0 [{ host := str "h", clientPort := 2 }])

/-- The `n`-th request is the one that is answered. -/
def sampleAsk (n : ℕ) : Ask := ⟨0, 0, { recv := .waits [n] }⟩

/-- One node to begin with. -/
def sampleTable : UMap Int32 (List Str) := AList.singleton 0 [endpoint (str "h") 1]

/-- The three threads at once. In the end `updateCloudNodes` is about to add a node to the table,
`gossipState` is about to take its size, and the HTTP thread waits for `shardMutex`. -/
def threadsRun : List Act :=
  [.call (.createShoppingList (str "Groceries") [str "a"] (sampleAsk 2)),
    .call (.updateCloudNodes (sampleAsk 0)), .turn .nodeUpdate, .turn .nodeUpdate] ++
  List.replicate 5 (.turn .http) ++ .call (.gossipState fun _ => sampleAsk 1) ::
    (List.replicate 3 (.turn .gossip) ++ List.replicate 11 (.turn .nodeUpdate))

theorem threadsRun_midway : ∃ s : State,
    runList (State.step Socket.zmqPlatform oneNode []) (.start {} sampleTable) threadsRun =
      some s ∧ ∀ t, ¬ (s.proc t).IsRet := by
  obtain ⟨s, hs, hret⟩ := runList_of_any (State.step Socket.zmqPlatform oneNode [])
    (.start {} sampleTable) threadsRun (fun s => decide (∀ t, ¬ (s.proc t).IsRet))
    (by decide +kernel)
  exact ⟨s, hs, of_decide_eq_true hret⟩

/-- The same, until no thread has a turn any more. -/
def threadsRunToEnd : List Act :=
  threadsRun ++ List.replicate 2 (.turn .nodeUpdate) ++ List.replicate 11 (.turn .gossip) ++
    List.replicate 10 (.turn .http)

theorem threadsRunToEnd_turn : ∃ s : State,
    runList (State.step Socket.zmqPlatform oneNode []) (.start {} sampleTable) threadsRunToEnd =
      some s ∧ (∀ t, s.turn t = none) ∧ ((∀ t, (s.proc t).IsRet) ∨ ∃ t, s.proc t = .undefined) := by
  obtain ⟨s, hs, hend⟩ := runList_of_any (State.step Socket.zmqPlatform oneNode [])
    (.start {} sampleTable) threadsRunToEnd (fun s => decide (∀ t, (s.turn t).isNone = true))
    (by decide +kernel)
  have hend : ∀ t, s.turn t = none := fun t => Option.isNone_iff_eq_none.1 (of_decide_eq_true hend t)
  exact ⟨s, hs, hend, no_deadlock hs s .refl hend⟩

/-- **What a sane table rules out.** If a client begins with a sane table in a sane cloud, no thread
divides by the size of an empty table, draws from an empty row or reads the first of no lists, and
when no thread has a turn any more every call has returned. -/
theorem calls_defined (hsane : Sane pf answer table)
    (hfresh : EveryFresh pf answer origin db table as)
    (hrun : runList (State.step pf answer origin) (.start db table) as = some s) :
    (∀ t, s.proc t ≠ .undefined) ∧
      ∀ s', Relation.ReflTransGen Pool.Turns s s' → (∀ t, s'.turn t = none) →
        ∀ t, (s'.proc t).IsRet := by
  have hs : s.Sound (discipline False pf answer origin table) (post pf answer origin db as) :=
    sound_of_run (.inr hsane) (.inr hfresh) hrun
  refine ⟨fun t => (hs.safe t).ne_undefined id, fun s' hs' hend => ?_⟩
  obtain hret | ⟨t, hundef⟩ := (hs.turns hs').ended hend
  · exact hret
  · exact absurd hundef (((hs.turns hs').safe t).ne_undefined id)

theorem sampleTable_sane : Sane Socket.zmqPlatform oneNode sampleTable where
  ne := List.cons_ne_nil _ _
  numbered n hn := by
    have hzero : n = 0 := Nat.lt_one_iff.1 hn
    subst hzero
    exact List.mem_singleton_self _
  row shard hshard := by
    obtain rfl := List.mem_singleton.1 hshard
    decide +kernel
  nodes _ m hm _ info hinfo := by
    cases hm
    obtain rfl := List.mem_singleton.1 hinfo
    exact List.mem_singleton_self _
  lists _ m hm hop := by
    cases hm
    cases hop

theorem threadsRun_defined : ∃ s : State,
    runList (State.step Socket.zmqPlatform oneNode []) (.start {} sampleTable) threadsRun =
      some s ∧ (∀ t, ¬ (s.proc t).IsRet) ∧ (∀ t, s.proc t ≠ .undefined) ∧
    ∀ s', Relation.ReflTransGen Pool.Turns s s' → (∀ t, s'.turn t = none) →
      ∀ t, (s'.proc t).IsRet := by
  obtain ⟨s, hs, hret⟩ := threadsRun_midway
  have hfresh : EveryFresh Socket.zmqPlatform oneNode [] {} sampleTable threadsRun := by
    refine EveryFresh.of_head rfl fun c hc => ?_
    cases hc
    exact ⟨str "a", List.mem_singleton_self _, rfl⟩
  exact ⟨s, hs, hret, calls_defined sampleTable_sane hfresh hs⟩

/-- **The calls do not mix.** Whatever the three threads do, the socket that nobody holds is what
whole calls of `sendCloudMessage` one after the other have left, the table that nobody refreshes is
what whole answers have left, and the HTTP calls are served one after the other, each with the
result it would have alone. Only a thread that finds no row for a shard leaves an empty one in the
table, and is at `undefined` from then on. -/
theorem calls_serial
    (hrun : runList (State.step pf answer origin) (.start db table) as = some s) :
    ((∀ t, s.held t .socketMutex ≠ some .exclusive) →
      ∃ calls : List CloudCall, s.mem .clientSocket = calls.foldl (Socket.after pf answer) .new) ∧
    ((∀ t, s.held t .shardMutex ≠ some .exclusive) →
      ∃ replies : List (Option Message), (∀ reply ∈ replies, ToGetNodes pf answer origin reply) ∧
        (s.mem .shardEndpoints = replies.foldl refreshed table ∨
          Widened (replies.foldl refreshed table) (s.mem .shardEndpoints) ∧
            ∃ t, s.held t .shardMutex = some .shared ∧ s.proc t = .undefined)) ∧
    ∀ r, s.proc .http = .ret r → Served pf answer origin db as r (s.mem .db) := by
  have hs := sound_of_lax_run hrun
  refine ⟨fun hfree => ?_, fun hfree => ?_, fun r hr => ?_⟩
  · obtain hcalls | ⟨-, t, hspoil, -⟩ := hs.inv .clientSocket .socketMutex rfl hfree
    · exact hcalls
    · exact absurd hspoil.spoils (not_spoils (r := .clientSocket) (nomatch ·) t)
  · obtain ⟨replies, hreplies, htable⟩ | ⟨⟨replies, hreplies, hwide⟩, t, hspoil, hundef⟩ :=
      hs.inv .shardEndpoints .shardMutex rfl hfree
    · exact ⟨replies, hreplies, .inl htable⟩
    · obtain ⟨m, hguard, hm⟩ := hspoil.shares
      cases hguard
      exact ⟨replies, hreplies, .inr ⟨hwide, t, hm, hundef⟩⟩
  · have hsafe := hs.safe .http
    rw [hr] at hsafe
    exact hsafe.2 s.mem (.refl _)

theorem threadsRunToEnd_serial : ∃ s : State,
    runList (State.step Socket.zmqPlatform oneNode []) (.start {} sampleTable) threadsRunToEnd =
      some s ∧
    (∃ calls : List CloudCall,
      s.mem .clientSocket = calls.foldl (Socket.after Socket.zmqPlatform oneNode) .new) ∧
    (∃ replies : List (Option Message),
      (∀ reply ∈ replies, ToGetNodes Socket.zmqPlatform oneNode [] reply) ∧
      s.mem .shardEndpoints = replies.foldl refreshed sampleTable) ∧
    ∃ r, s.proc .http = .ret r ∧
      Served Socket.zmqPlatform oneNode [] {} threadsRunToEnd r (s.mem .db) := by
  obtain ⟨s, hs, hret⟩ := runList_of_any (State.step Socket.zmqPlatform oneNode [])
    (.start {} sampleTable) threadsRunToEnd
    (fun s => decide ((s.proc .http).IsRet ∧ (∀ t, s.held t .socketMutex ≠ some .exclusive) ∧
      ∀ t, s.held t .shardMutex = none)) (by decide +kernel)
  obtain ⟨hret, hsocket, hshard⟩ := of_decide_eq_true hret
  obtain ⟨r, hr⟩ := Proc.exists_of_isRet hret
  obtain ⟨hcalls, htable, hserved⟩ := calls_serial hs
  obtain ⟨replies, hreplies, htable | ⟨-, t, ht, -⟩⟩ :=
    htable fun t ht => nomatch (hshard t).symm.trans ht
  · exact ⟨s, hs, hcalls hsocket, ⟨replies, hreplies, htable⟩, r, hr, hserved r hr⟩
  · cases (hshard t).symm.trans ht

/-- **Races.** The threads race for `randomEngine`. `gossipState` takes the size of the table while
`updateCloudNodes` adds to it. A thread that shares `shardMutex` and finds no row for a shard is
about to insert one, while another reads the table or inserts one too. There is no other race. -/
theorem races_of_run
    (hrun : runList (State.step pf answer origin) (.start db table) as = some s) {r : Object}
    {t t' : Thread} (hr : s.Races r t t') :
    r = .randomEngine ∨
    r = .shardEndpoints ∧ t = .nodeUpdate ∧ t' = .gossip ∧
      s.held .nodeUpdate .shardMutex = some .exclusive ∧ s.held .gossip .shardMutex = none ∨
    r = .shardEndpoints ∧ t ≠ .nodeUpdate ∧ s.held t .shardMutex = some .shared ∧
      (s.proc t).Spoils r ∧ (t' = .gossip ∨ s.held t' .shardMutex = some .shared) := by
  obtain ⟨hw, ⟨⟨rfl, rfl⟩, hfree⟩ | ⟨hguard, -⟩⟩ | ⟨hspoil, hspoils, hacc⟩ :=
    (sound_of_lax_run hrun).race hr
  · obtain rfl := hw.only .nodeUpdate rfl
    refine .inr (.inl ⟨rfl, rfl, rfl, hw.holds .shardMutex rfl, ?_⟩)
    by_contra hheld
    exact hfree ⟨.shardMutex, rfl, Option.isSome_iff_ne_none.2 hheld⟩
  · cases r with
    | randomEngine => exact .inl rfl
    | clientSocket => cases hguard
    | db => cases hguard
    | shardEndpoints => cases hguard
  · obtain ⟨-, ht, rfl⟩ := hspoil.spoils
    have hshares : ∀ {t : Thread}, (discipline True pf answer origin table).Shares (s.held t)
        .shardEndpoints → s.held t .shardMutex = some .shared := by
      rintro t ⟨m, hguard, hm⟩
      cases hguard
      exact hm
    exact .inr (.inr ⟨rfl, ht, hshares hspoil.shares, hspoils, hacc.imp And.left hshares⟩)

/-- Every request is answered with a node of shard 5. -/
def strayNode (_ : Request Str Message) : Frame :=
  .packed (Message.nodesResponse [] 0 [{ host := str "h", clientPort := 2, shardId := 5 }])

/-- The table has rows of the shards 0 and 5. The HTTP thread and `gossipState` look for a row of
shard 1, and both are about to insert it. -/
def strayRun : List Act :=
  .call (.updateCloudNodes (sampleAsk 0)) :: List.replicate 15 (.turn .nodeUpdate) ++
    .call (.createShoppingList (str "Groceries") [str "a"] (sampleAsk 2)) ::
      List.replicate 8 (.turn .http) ++
    .call (.gossipState fun _ => sampleAsk 1) :: List.replicate 7 (.turn .gossip)

theorem threadsRun_races :
    (∃ s : State, runList (State.step Socket.zmqPlatform oneNode []) (.start {} sampleTable)
      (threadsRun.take 4) = some s ∧ s.Races .randomEngine .http .nodeUpdate) ∧
    (∃ s : State, runList (State.step Socket.zmqPlatform oneNode []) (.start {} sampleTable)
      threadsRun = some s ∧ s.Races .shardEndpoints .nodeUpdate .gossip ∧
      s.held .nodeUpdate .shardMutex = some .exclusive ∧ s.held .gossip .shardMutex = none) ∧
    ∃ s : State, runList (State.step Socket.zmqPlatform strayNode []) (.start {} sampleTable)
      strayRun = some s ∧ s.Races .shardEndpoints .http .gossip ∧
      s.held .http .shardMutex = some .shared ∧ (s.proc .http).Spoils .shardEndpoints := by
  obtain ⟨s, hs, hrace⟩ := runList_of_any (State.step Socket.zmqPlatform oneNode [])
    (.start {} sampleTable) (threadsRun.take 4)
    (fun s => decide (s.Races .randomEngine .http .nodeUpdate)) (by decide +kernel)
  refine ⟨⟨s, hs, of_decide_eq_true hrace⟩, ?_, ?_⟩
  · obtain ⟨s, hs, hrace⟩ := runList_of_any (State.step Socket.zmqPlatform oneNode [])
      (.start {} sampleTable) threadsRun
      (fun s => decide (s.Races .shardEndpoints .nodeUpdate .gossip)) (by decide +kernel)
    refine ⟨s, hs, of_decide_eq_true hrace, ?_⟩
    obtain hr | ⟨-, -, -, hheld⟩ | ⟨-, hne, -⟩ := races_of_run hs (of_decide_eq_true hrace)
    · cases hr
    · exact hheld
    · exact absurd rfl hne
  · obtain ⟨s, hs, hrace⟩ := runList_of_any (State.step Socket.zmqPlatform strayNode [])
      (.start {} sampleTable) strayRun
      (fun s => decide (s.Races .shardEndpoints .http .gossip)) (by decide +kernel)
    refine ⟨s, hs, of_decide_eq_true hrace, ?_⟩
    obtain hr | ⟨-, ht, -⟩ | ⟨-, -, hheld, hspoils, -⟩ := races_of_run hs (of_decide_eq_true hrace)
    · cases hr
    · cases ht
    · exact ⟨hheld, hspoils⟩

end Shopping.Client
