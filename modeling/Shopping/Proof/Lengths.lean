import Shopping.Proof.Packing

/-!
# What is short fits

A value that packs to fewer than `2^32` bytes is within the limits of the format, so that it comes
back from these bytes: none of its strings and containers can be longer than the whole
(`ShoppingList.fits_of_length`, `Message.fits_of_length`).
-/

namespace Shopping

open Lib Lib.Msgpack

/-- Each key and each value is a part of the packed map. -/
theorem fitsMap_of_length {V : Type} {P : V → Prop} {m : UMap Str V} {order : SetOrder}
    (packV : Str → V → Bytes) (hP : ∀ k v, (packV k v).length < 2 ^ 32 → P v)
    (h : (packMap ((order.entries m).map fun e => (packStr e.1, packV e.1 e.2))).length < 2 ^ 32) :
    FitsMap P m := by
  have hlen := length_le_packMap ((order.entries m).map fun e => (packStr e.1, packV e.1 e.2))
    (List.forall_mem_map.2 fun e _ => (Nat.zero_le _).trans_lt (length_packStr e.1))
  rw [List.length_map] at hlen
  refine order.fitsMap_arrange.1 ⟨hlen.trans_lt h, fun e he => ?_⟩
  have hmem : (packStr e.1, packV e.1 e.2) ∈
      (order.entries m).map fun e => (packStr e.1, packV e.1 e.2) := List.mem_map_of_mem he
  have hle : (packStr e.1).length + (packV e.1 e.2).length ≤ _ := length_mem_packMap hmem
  have := length_packStr e.1
  exact ⟨by omega, hP e.1 e.2 (by omega)⟩

/-- A counter is at least as long as its sides. -/
theorem PNCounter.fits_of_length {c : PNCounter} {order : Bool → SetOrder}
    (h : (c.pack order).length < 2 ^ 32) : c.Fits := by
  have hpos : (packCounts (order false) c.pos).length ≤ (c.pack order).length :=
    length_mem_packArr (by simp)
  have hneg : (packCounts (order true) c.neg).length ≤ (c.pack order).length :=
    length_mem_packArr (by simp)
  exact ⟨fitsMap_of_length (fun _ => packUInt64) (fun _ _ _ => trivial) (hpos.trans_lt h),
    fitsMap_of_length (fun _ => packUInt64) (fun _ _ _ => trivial) (hneg.trans_lt h)⟩

theorem ShoppingItem.fits_of_length {it : ShoppingItem} {order : Bool → Bool → SetOrder}
    (h : (it.pack order).length < 2 ^ 32) : it.Fits := by
  have huid : (packStr it.uid).length ≤ (it.pack order).length := length_mem_packArr (by simp)
  have hname : (packStr it.name).length ≤ (it.pack order).length := length_mem_packArr (by simp)
  have hdesired : (it.desiredQuantity.pack (order false)).length ≤ (it.pack order).length :=
    length_mem_packArr (by simp)
  have hcurrent : (it.currentQuantity.pack (order true)).length ≤ (it.pack order).length :=
    length_mem_packArr (by simp)
  have := length_packStr it.uid
  have := length_packStr it.name
  exact ⟨by omega, by omega, PNCounter.fits_of_length (hdesired.trans_lt h),
    PNCounter.fits_of_length (hcurrent.trans_lt h)⟩

/-- Each tag is a part of the packed set. -/
theorem fitsTags_of_length {tags : Finset Str} {order : SetOrder}
    (h : (packArr ((order.list tags).map packStr)).length < 2 ^ 32) : FitsTags tags := by
  have hlen := length_le_packArr ((order.list tags).map packStr)
    (List.forall_mem_map.2 fun s _ => (Nat.zero_le _).trans_lt (length_packStr s))
  rw [List.length_map, order.length_list] at hlen
  refine ⟨hlen.trans_lt h, fun tag ht => ?_⟩
  have hpacked : packStr tag ∈ (order.list tags).map packStr :=
    List.mem_map_of_mem (order.mem_list.2 ht)
  have := length_mem_packArr hpacked
  have := length_packStr tag
  omega

/-- **A list fits** if it was packed into few enough bytes. -/
theorem ShoppingList.fits_of_length {l : ShoppingList} {order : ListOrder}
    (h : (l.pack order).length < 2 ^ 32) : l.Fits := by
  have huid : (packStr l.uid).length ≤ (l.pack order).length := length_mem_packArr (by simp)
  have hname : (packStr l.name).length ≤ (l.pack order).length := length_mem_packArr (by simp)
  let packItem (uid : Str) : ShoppingItem → Bytes := ShoppingItem.pack (order.counts uid)
  have hitems : (l.items.pack packItem order).length ≤ (l.pack order).length :=
    length_mem_packArr (by simp [packItem])
  have helements : (ORSet.packElements packItem order.elements l.items.elements).length ≤
      (l.items.pack packItem order).length := length_mem_packArr (by simp)
  have hadd : (ORSet.packTags (order.uids false) (order.tags false) l.items.addSet).length ≤
      (l.items.pack packItem order).length := length_mem_packArr (by simp)
  have hremove : (ORSet.packTags (order.uids true) (order.tags true) l.items.removeSet).length ≤
      (l.items.pack packItem order).length := length_mem_packArr (by simp)
  have := length_packStr l.uid
  have := length_packStr l.name
  exact ⟨by omega, by omega,
    fitsMap_of_length packItem (fun _ _ => ShoppingItem.fits_of_length)
      (helements.trans_lt (by omega)),
    fitsMap_of_length (fun uid s => packArr (((order.tags false uid).list s).map packStr))
      (fun _ _ => fitsTags_of_length) (hadd.trans_lt (by omega)),
    fitsMap_of_length (fun uid s => packArr (((order.tags true uid).list s).map packStr))
      (fun _ _ => fitsTags_of_length) (hremove.trans_lt (by omega))⟩

theorem NodeInfo.fits_of_length {info : NodeInfo} (h : info.pack.length < 2 ^ 32) : info.Fits := by
  have hid : (packStr info.nodeId).length ≤ info.pack.length := length_mem_packArr (by simp)
  have hhost : (packStr info.host).length ≤ info.pack.length := length_mem_packArr (by simp)
  have := length_packStr info.nodeId
  have := length_packStr info.host
  exact ⟨by omega, by omega⟩

/-- **A message in a frame shorter than `2^32` bytes fits.** -/
theorem Message.fits_of_length {m : Message} {order : ℕ → ListOrder}
    (h : (m.toZmq order).length < 2 ^ 32) : m.Fits := by
  have horigin : (packStr m.origin).length ≤ (m.pack order).length := length_mem_packArr (by simp)
  have hlists : (packArr (m.lists.mapIdx fun i l => l.pack (order i))).length ≤
      (m.pack order).length := length_mem_packArr (by simp)
  have hnodes : (packArr (m.nodes.map NodeInfo.pack)).length ≤ (m.pack order).length :=
    length_mem_packArr (by simp)
  have hlt : (m.pack order).length < 2 ^ 32 := h
  have := length_packStr m.origin
  refine ⟨by omega, ⟨?_, fun l hl => ?_⟩, ?_, fun info hinfo => ?_⟩
  · have := length_le_packArr (m.lists.mapIdx fun i l => l.pack (order i)) (by
      intro bs hbs
      obtain ⟨i, hi, rfl⟩ := List.mem_mapIdx.1 hbs
      exact packArr_length_pos _)
    rw [List.length_mapIdx] at this
    omega
  · obtain ⟨i, hi, rfl⟩ := List.getElem_of_mem hl
    have hmem : (m.lists[i].pack (order i)) ∈ m.lists.mapIdx fun i l => l.pack (order i) :=
      List.mem_mapIdx.2 ⟨i, hi, rfl⟩
    have := length_mem_packArr hmem
    exact ShoppingList.fits_of_length (this.trans_lt (hlists.trans_lt hlt))
  · have := length_le_packArr (m.nodes.map NodeInfo.pack)
      (List.forall_mem_map.2 fun info _ => packArr_length_pos _)
    rw [List.length_map] at this
    omega
  · have hmem : info.pack ∈ m.nodes.map NodeInfo.pack := List.mem_map_of_mem hinfo
    have := length_mem_packArr hmem
    exact NodeInfo.fits_of_length (this.trans_lt (hnodes.trans_lt hlt))

end Shopping
