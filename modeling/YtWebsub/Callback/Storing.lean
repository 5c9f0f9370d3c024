import YtWebsub.Callback.Notification
import YtWebsub.Store.Residue

open rust rust.utf8 rust.text rust.num rust.fs
open yt_websub.resolve yt_websub.store yt_websub.subs

namespace yt_websub.callback.notification

/-- What the log holds stays in place, what has reached the disk stays there, and what is
added is read under numbers from `next_seq` on, also in front of more of the kind. -/
structure Adds (fs fs' : FileSystem) (store store' : Store) : Prop where
  handle : fs'.entries events_path = some store.log
  log : store'.log = store.log
  counter : store.next_seq ≤ store'.next_seq
  synced : ∀ k ≤ fs.synced store.log, k ≤ (fs.data store.log).length → k ≤ fs'.synced store.log
  added : ∃ added, fs'.data store.log = fs.data store.log ++ added ∧
    ∀ n < store.next_seq, ∀ rest, NumbersAbove n rest → NumbersAbove n (added ++ rest)

theorem Adds.refl {fs : FileSystem} {store : Store} (hhandle : fs.entries events_path = some store.log) :
    Adds fs fs store store where
  handle := hhandle
  log := rfl
  counter := le_rfl
  synced _ hk _ := hk
  added := ⟨[], (List.append_nil _).symm, fun _ _ _ hrest => hrest⟩

theorem Adds.trans {fs mid fs' : FileSystem} {store store_mid store' : Store} (h : Adds fs mid store store_mid)
    (h' : Adds mid fs' store_mid store') : Adds fs fs' store store' := by
  obtain ⟨_, hlog, hcounter, hsynced, first, hfirst, habove⟩ := h
  obtain ⟨hhandle', hlog', hcounter', hsynced', second, hsecond, habove'⟩ := h'
  rw [hlog] at hhandle' hlog' hsynced' hsecond
  refine ⟨hhandle', hlog', hcounter.trans hcounter', fun k hk hlen => hsynced' k (hsynced k hk hlen) ?_,
    first ++ second, by rw [hsecond, hfirst, List.append_assoc], fun n hn rest hrest => ?_⟩
  · rw [hfirst, List.length_append]
    omega
  · rw [List.append_assoc]
    exact habove n hn _ (habove' n (hn.trans_le hcounter) rest hrest)

/-- Behind what a failed append has left, the line of a successful one is lost, and the
filter remembers the event all the same. -/
theorem stored_behind_torn_line :
    let torn := handle_notify noticeDigest Session.init.fs Session.init.process subscribed deletionNotice
      fun _ => ⟨1, some (.write 2)⟩
    let glued := handle_notify noticeDigest torn.1 torn.2.1 subscribed deletionNotice fun _ => ⟨2, none⟩
    let again := handle_notify noticeDigest glued.1 glued.2.1 subscribed deletionNotice fun _ => ⟨3, none⟩
    glued.2.2.status = some 204 ∧ glued.2.2.results = [.ok (some 1)] ∧ logged glued.1 = [] ∧
      again.2.2.results = [.ok none] := by
  decide +kernel

end yt_websub.callback.notification
