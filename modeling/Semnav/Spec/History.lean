import Semnav.Spec.QueryCommands
import Semnav.Spec.ReconcileCorrect

/-!
# Histories

What every command does to the schema's invariant, and the worlds that a daemon can get
into: from any stored graph, by queries against any servers, with any stored graph and any
files in between (edits, reconciles, index passes).

## Key results

- `run_stored`: every query leaves a stored graph
- `History.stored`: so does every history
-/

namespace Semnav.Graph.Db

/-- A statement that rewrites other columns than the constrained ones keeps the invariant. -/
private theorem mapNodes_stored {db : Db} (h : db.Stored) (f : Node → Node)
    (hid : ∀ n, (f n).id = n.id)
    (hfqn : ∀ n, (f n).fqn = n.fqn) (huri : ∀ n, (f n).uri = n.uri)
    (hname : ∀ n, (f n).name = n.name) (hrange : ∀ n, (f n).range = n.range)
    (hcontainer : ∀ n, (f n).containerId = n.containerId) :
    ({ db with nodes := db.nodes.map f } : Db).Stored := by
  -- `f` keeps every column that a constraint reads, so each constraint is carried over.
  have hids : (db.nodes.map f).map (·.id) = db.nodes.map (·.id) := by
    rw [List.map_map]
    exact List.map_congr_left fun n _ => hid n
  have hphys : ∀ n, (f n).phys = n.phys := fun n => by
    simp only [NodeCols.phys, huri, hname, hrange]
  have hasNode_map : ∀ id, ({ db with nodes := db.nodes.map f } : Db).hasNode id = db.hasNode id :=
    fun id => by
      rw [Bool.eq_iff_iff, hasNode_iff, hasNode_iff]
      simp [hid]
  exact {
    ids_nodup := by
      rw [hids]
      exact h.ids_nodup
    id_pos := fun x hx => by
      obtain ⟨n, hn, rfl⟩ := List.mem_map.mp hx
      exact hid n ▸ h.id_pos n hn
    id_le := fun x hx => by
      obtain ⟨n, hn, rfl⟩ := List.mem_map.mp hx
      exact hid n ▸ h.id_le n hn
    fqn_unique := fun x hx y hy heq => by
      obtain ⟨n, hn, rfl⟩ := List.mem_map.mp hx
      obtain ⟨m, hm, rfl⟩ := List.mem_map.mp hy
      rw [hid, hid]
      exact h.fqn_unique n hn m hm (by rw [← hfqn, ← hfqn m, heq])
    phys_unique := fun x hx y hy heq => by
      obtain ⟨n, hn, rfl⟩ := List.mem_map.mp hx
      obtain ⟨m, hm, rfl⟩ := List.mem_map.mp hy
      rw [hid, hid]
      exact h.phys_unique n hn m hm (by rw [← hphys, ← hphys m, heq])
    container_ok := fun x hx c hc => by
      obtain ⟨n, hn, rfl⟩ := List.mem_map.mp hx
      rw [hasNode_map]
      exact h.container_ok n hn c (by rw [← hcontainer, hc])
    edge_ids_nodup := h.edge_ids_nodup
    edge_id_le := h.edge_id_le
    edge_ok := fun e he => by
      rw [hasNode_map, hasNode_map]
      exact h.edge_ok e he
    cache_ok := fun a ha => by
      rw [hasNode_map]
      exact h.cache_ok a ha
    materialized_ok := fun a t ha => by
      rw [hasNode_map]
      exact h.materialized_ok a t ha
    line_nonneg := fun x hx => by
      obtain ⟨n, hn, rfl⟩ := List.mem_map.mp hx
      rw [hrange]
      exact h.line_nonneg n hn }

end Semnav.Graph.Db

namespace Semnav.Query

open Semnav.ForStd Semnav.Graph Semnav.Indexer

section Stored

variable {S : Servers} {α β : Type}

/-- Every command that succeeds leaves a stored graph. -/
private theorem exec_stored {c : DbCmd β} {d d' : Db} {b : β} (h : d.Stored)
    (hexec : c.exec d = .ok (b, d')) : d'.Stored := by
  -- By the command; the reads at the end leave the graph as it is.
  cases c with
  | upsertEdge e =>
    have hup := exec_upsertEdge_iff.mp hexec
    exact ⟨Db.upsertEdge_wf h.toWF hup, (Db.upsertEdge_frame hup).1 ▸ h.line_nonneg⟩
  | invalidateOutgoingCalls id =>
    cases hexec
    exact ⟨Db.invalidateOutgoingCalls_wf h.toWF id, h.line_nonneg⟩
  | setCalleesCacheHash id hash =>
    obtain ⟨hid, rfl⟩ := exec_setCalleesCacheHash_iff.mp hexec
    -- The anchor of the hash is stored, as the foreign key asks.
    exact { h with
      cache_ok := fun a ha => by
        dsimp only at ha
        split at ha
        · rename_i heq
          exact heq ▸ hid
        · exact h.cache_ok a ha }
  | markMaterialized id t =>
    obtain ⟨hid, rfl⟩ := exec_markMaterialized_iff.mp hexec
    -- The marker's anchor is stored, as the foreign key asks.
    exact { h with
      materialized_ok := fun a t' ha => by
        dsimp only at ha
        split at ha
        · rename_i heq
          exact heq.1 ▸ hid
        · exact h.materialized_ok a t' ha }
  -- The three updates write a hover column, which no constraint reads.
  | updateNodeConstruct id construct =>
    cases hexec
    exact Db.mapNodes_stored h _ (fun n => by split <;> rfl) (fun n => by split <;> rfl)
      (fun n => by split <;> rfl) (fun n => by split <;> rfl) (fun n => by split <;> rfl)
      (fun n => by split <;> rfl)
  | updateNodeSignature id signature =>
    cases hexec
    exact Db.mapNodes_stored h _ (fun n => by split <;> rfl) (fun n => by split <;> rfl)
      (fun n => by split <;> rfl) (fun n => by split <;> rfl) (fun n => by split <;> rfl)
      (fun n => by split <;> rfl)
  | updateNodeSignatureByFqn fqn signature =>
    cases hexec
    exact Db.mapNodes_stored h _ (fun n => by split <;> rfl) (fun n => by split <;> rfl)
      (fun n => by split <;> rfl) (fun n => by split <;> rfl) (fun n => by split <;> rfl)
      (fun n => by split <;> rfl)
  | _ =>
    cases hexec
    exact h

theorem handle_stored (c : Cmd β) {w : World} (h : w.db.Stored) : (c.handle S w).2.db.Stored := by
  cases c with
  | db c =>
    simp only [Cmd.handle]
    split
    · rename_i b d hexec
      exact exec_stored h hexec
    · exact h
  | spawnRefresh r =>
    simp only [Cmd.handle]
    split
    · exact h
    · exact h
  | _ => exact h

/-- Every query leaves a stored graph, also one that ends with an error. -/
theorem run_stored (q : QueryM α) {w : World} (h : w.db.Stored) : (q.run S w).2.db.Stored :=
  Prog.Issues.run_rel (Cmd.handle S) (fun a b => a.db.Stored → b.db.Stored) (fun _ h => h)
    (fun hab hbc ha => hbc (hab ha)) (fun _ c _ _ hs => handle_stored c hs) (onlyKinds_true q) w h

end Stored

/-- The worlds a daemon can get into. -/
inductive History : World → Prop where
  | start {w : World} (hstored : w.db.Stored) (hlog : w.log = []) : History w
  /-- Edits, reconciles and index passes: other tables, other files. -/
  | others {w : World} (h : History w) {tables : Db} (hstored : tables.Stored)
      (text : String → Option String) : History { w with db := tables, text := text }
  /-- A query, against servers of any behaviour. -/
  | query {w : World} (h : History w) {α : Type} (S : Servers) (q : QueryM α) :
      History (q.run S w).2

theorem History.stored {w : World} (h : History w) : w.db.Stored := by
  induction h with
  | start hstored => exact hstored
  | others _ hstored => exact hstored
  | query _ S q ih => exact run_stored q ih

end Semnav.Query
