import Shopping.Client.Api

/-!
# Refreshing the routing table

`updateCloudNodes` is to replace the endpoint table by the addresses of the reply
(`Refreshed`). The loop that clears the table runs over copies of its entries, so a
`NODES_RESPONSE` adds to what was there (`endpoints_finish`); and there always was something,
the endpoint that was asked. Only an exchange that fails leaves what it should, the old
table (`refreshed_iff`).
-/

namespace Shopping

open Lib

namespace API

/-- The endpoints of a shard. -/
def endpoints (a : API) (shard : Int32) : List Str := (a.shardEndpoints.lookup shard).getD []

end API

/-- The addresses of the nodes of a shard, one for each occurrence. -/
def Message.addresses (m : Message) (shard : Int32) : List Str :=
  (m.nodes.filter fun info => info.shardId = shard).map fun info => endpoint info.host info.clientPort

/-- The reply to the `GET_NODES` of a refresh. -/
def API.nodesReply (a : API) (now : UInt64) (pick : ℕ)
    (exchange : Str → Message → Option Message) : Option Message :=
  (a.getAnyEndpoint pick).bind fun ep => exchange ep (Message.getNodes a.origin now)

/-- The table is that of the reply, or the old one if there is no `NODES_RESPONSE`; and
refreshing again with the same reply changes nothing. -/
structure Refreshed (a a' : API) (reply : Option Message) : Prop where
  replaced : ∀ m ∈ reply, m.op = .nodesResponse →
    ∀ shard, (a'.endpoints shard).Perm (m.addresses shard)
  kept : (∀ m ∈ reply, m.op ≠ .nodesResponse) → a'.shardEndpoints = a.shardEndpoints
  repeated : ∀ k shard, ((fun b : API => b.finishUpdateCloudNodes reply)^[k] a').endpoints shard =
    a'.endpoints shard

namespace API

variable {a : API}

/-- **What a `NODES_RESPONSE` leaves**: the old endpoints and those of the reply. -/
theorem endpoints_finish {m : Message} (ho : m.op = .nodesResponse) (shard : Int32) :
    (a.finishUpdateCloudNodes (some m)).endpoints shard = a.endpoints shard ++ m.addresses shard := by
  have hfold : ∀ (infos : List NodeInfo) (table : UMap Int32 (List Str)),
      ((infos.foldl (fun table info => table.insert info.shardId
        ((table.lookup info.shardId).getD [] ++ [endpoint info.host info.clientPort]))
          table).lookup shard).getD [] =
        (table.lookup shard).getD [] ++
          (infos.filter fun info => info.shardId = shard).map fun info =>
            endpoint info.host info.clientPort := by
    intro infos
    induction infos with
    | nil => intro table; simp
    | cons info infos ih =>
      intro table
      rw [List.foldl_cons, ih, UMap.lookup_insert_ite]
      by_cases hs : info.shardId = shard
      · subst hs; simp
      · rw [if_neg (Ne.symm hs), List.filter_cons_of_neg (by simpa using hs)]
  unfold finishUpdateCloudNodes
  dsimp only
  rw [if_pos ho]
  exact hfold m.nodes a.shardEndpoints

/-- What each entry of the reply keeps of the table, a refresh keeps. -/
theorem finish_inv {P : UMap Int32 (List Str) → Prop} {reply : Option Message}
    (h : P a.shardEndpoints) (hinsert : ∀ table, P table → ∀ m ∈ reply, ∀ info ∈ m.nodes,
      P (table.insert info.shardId
        ((table.lookup info.shardId).getD [] ++ [endpoint info.host info.clientPort]))) :
    P (a.finishUpdateCloudNodes reply).shardEndpoints := by
  have hfold : ∀ (infos : List NodeInfo) (table : UMap Int32 (List Str)), P table →
      (∀ table, P table → ∀ info ∈ infos, P (table.insert info.shardId
        ((table.lookup info.shardId).getD [] ++ [endpoint info.host info.clientPort]))) →
      P (infos.foldl (fun table info => table.insert info.shardId
        ((table.lookup info.shardId).getD [] ++ [endpoint info.host info.clientPort])) table) := by
    intro infos
    induction infos with
    | nil => intro table ht _; exact ht
    | cons info infos ih =>
      intro table ht hinfos
      exact ih _ (hinfos table ht info List.mem_cons_self) fun table ht info hinfo =>
        hinfos table ht info (List.mem_cons_of_mem _ hinfo)
  unfold finishUpdateCloudNodes
  split
  · rename_i m
    split
    · exact hfold m.nodes _ h fun table ht info hinfo => hinsert table ht m rfl info hinfo
    · exact h
  · exact h

theorem finish_of_other {reply : Option Message} (h : ∀ m ∈ reply, m.op ≠ .nodesResponse) :
    a.finishUpdateCloudNodes reply = a := by
  unfold finishUpdateCloudNodes
  cases reply with
  | none => rfl
  | some m => exact if_neg (h m rfl)

/-- The endpoint that was asked is in the table. -/
theorem endpoints_ne_nil {pick : ℕ} {ep : Str} (h : a.getAnyEndpoint pick = some ep) :
    ∃ shard, a.endpoints shard ≠ [] := by
  obtain ⟨row, hrow, hep⟩ := List.mem_flatMap.1 (List.mem_of_getElem? h)
  refine ⟨row.1, ?_⟩
  rw [endpoints, AList.mem_lookup_iff.2 hrow]
  exact List.ne_nil_of_mem hep

end API

/-- **A refresh replaces the table only if it fails**: it does what it should exactly when no
`NODES_RESPONSE` arrives. -/
theorem refreshed_iff (a : API) (now : UInt64) (pick : ℕ)
    (exchange : Str → Message → Option Message) :
    (∀ a' ∈ a.updateCloudNodes now pick exchange,
      Refreshed a a' (a.nodesReply now pick exchange)) ↔
      ∀ m ∈ a.nodesReply now pick exchange, m.op ≠ .nodesResponse := by
  unfold API.updateCloudNodes API.nodesReply
  cases hep : a.getAnyEndpoint pick with
  | none => simp
  | some ep =>
    simp only [Option.map_some, Option.bind_some, Option.mem_some_iff, forall_eq']
    generalize exchange ep (Message.getNodes a.origin now) = reply
    constructor
    · rintro h m rfl ho
      -- what was there before would have to be gone
      obtain ⟨shard, hne⟩ := API.endpoints_ne_nil hep
      have hlength := (h.replaced m rfl ho shard).length_eq
      rw [API.endpoints_finish ho, List.length_append] at hlength
      exact hne (List.length_eq_zero_iff.1 (by omega))
    · intro h
      rw [API.finish_of_other h]
      refine ⟨fun m hm ho => absurd ho (h m hm), fun _ => rfl, fun k shard => ?_⟩
      have hfixed : (fun b : API => b.finishUpdateCloudNodes reply) a = a := API.finish_of_other h
      rw [Function.iterate_fixed hfixed]

/-- A client that knows one node. -/
def oneNodeApi : API := { origin := [0], shardEndpoints := AList.singleton 0 [endpoint (str "h") 0] }

/-- The reply of the node that took its place. -/
def otherNodeReply : Message :=
  Message.nodesResponse [] 0 [{ host := str "h", shardId := 0, clientPort := 1 }]

/-- The node that is gone stays in the table, and the other one is added with every refresh. -/
theorem stale_endpoint_left : ∃ a', oneNodeApi.updateCloudNodes 0 0 (fun _ _ => some otherNodeReply) =
      some a' ∧ a'.endpoints 0 = [endpoint (str "h") 0, endpoint (str "h") 1] ∧
      (a'.finishUpdateCloudNodes (some otherNodeReply)).endpoints 0 =
        [endpoint (str "h") 0, endpoint (str "h") 1, endpoint (str "h") 1] ∧
      ¬ Refreshed oneNodeApi a' (some otherNodeReply) := by
  refine ⟨_, rfl, by decide +kernel, by decide +kernel, fun h => ?_⟩
  have hlength := (h.replaced _ rfl rfl 0).length_eq
  revert hlength
  decide +kernel

end Shopping
