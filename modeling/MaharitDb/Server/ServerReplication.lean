import MaharitDb.Server.FollowerContent
import MaharitDb.Server.ServerIntegrity

/-!
# A follower of the server

What a server that replicates writes to its log is enough to rebuild its graph: after any interleaving of
requests, rollbacks and failing statements included, a follower that applies the log from the beginning has
the nodes, edges, labels and properties of the server, each value as it is read back from the log.
-/

namespace Maharit

open PropertyGraph GuardedRun

lemma ConcurrentGraph.mapValues_content_new (f : PropertyValue → PropertyValue) :
    ConcurrentGraph.new.content.mapValues f = ConcurrentGraph.new.content :=
  mapValues_eq_self ⟨fun _ _ _ _ hn => (Option.some_ne_none _ hn.symm).elim,
    fun _ _ _ _ he => (Option.some_ne_none _ he.symm).elim⟩

/-- What a follower of the server has applied. -/
def Server.follower (J : JsonText) (s : Server) : ConcurrentGraph := s.wal.foldl (applyWalEntry J) .new

/-- **A follower of the server converges** to the graph of the server, whatever the requests were, and to the
very values when these survive the log. -/
theorem server_follower_converges {ε : Type} (E : ServerEnv ε) (hE : Server.Replicates E) {s : Server}
    (hs : s.Fresh) (requests : List (Request × Draw))
    (hlog : (requests.foldl (Server.step E) s).wal.length < 2 ^ 64) :
    ((requests.foldl (Server.step E) s).follower E.J).Consistent ∧
      ((requests.foldl (Server.step E) s).follower E.J).content =
        (requests.foldl (Server.step E) s).graph.content.mapValues (readBack E.J) ∧
      (E.J.Faithful → AllValues (SurvivesWal E.J) (requests.foldl (Server.step E) s).graph.content →
        ((requests.foldl (Server.step E) s).follower E.J).content =
          (requests.foldl (Server.step E) s).graph.content) := by
  obtain ⟨calls, hgraph, hwal, hfresh⟩ := (Server.advances_run hE s requests).logged hlog hs.sound
  rw [hs.graph] at hgraph hwal hfresh
  rw [hs.wal, List.nil_append] at hwal
  obtain ⟨hconsistent, hcontent⟩ := follower_run E.J ConcurrentGraph.consistent_new hfresh
    ConcurrentGraph.consistent_new (ConcurrentGraph.mapValues_content_new (readBack E.J)).symm
  rw [← hwal, ← hgraph] at hcontent
  rw [← hwal] at hconsistent
  refine ⟨hconsistent, hcontent, fun hJ hsurvive => hcontent.trans (mapValues_eq_self ?_)⟩
  exact hsurvive.mono fun v hv => (walStringToPropertyValue_eq_iff hJ v).mpr hv

theorem server_follower_converges_interleaved :
    (interleavedRequests.foldl (Server.step replicatingEnv) .new).wal.length = 3 ∧
      ((interleavedRequests.foldl (Server.step replicatingEnv) .new).follower replicatingEnv.J).content =
        (interleavedRequests.foldl (Server.step replicatingEnv) .new).graph.content.mapValues
          (readBack replicatingEnv.J) := by
  have hlength : (interleavedRequests.foldl (Server.step replicatingEnv) .new).wal.length = 3 := by
    decide +kernel
  refine ⟨hlength, (server_follower_converges replicatingEnv replicates_replicatingEnv fresh_new
    interleavedRequests ?_).2.1⟩
  rw [hlength]
  decide

end Maharit
