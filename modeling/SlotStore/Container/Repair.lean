import SlotStore.Container
import SlotStore.Reconcile

/-!
Repair: the file is scanned and the slot table brought in line with it. A slot table or a root
whose region is gone is forgotten, and the end of the file moves behind the last region.
-/

namespace SlotStore.Container

/-- The container after a reconciliation that gave this report and this table. -/
def adoptReport (container : Container) (report : RepairReport) (slots : SlotTable) : Container :=
  { container with
    slots := slots
    tableIndex := container.tableIndex.filter fun index => !report.demoted.contains index
    root := container.root.filter fun index => !report.demoted.contains index
    endOfFile := report.endOfFile
    dirty := container.dirty || decide (report.endOfFile ≠ container.endOfFile) ||
      !report.isClean }

/-- Rescans the file and repairs the slot table. A layout that no walk can follow is an error. -/
def validate (container : Container) : Attempt Container RepairReport :=
  match Scan.ofFile container.file with
  | .error damage => (.error (.malformed damage), container)
  | .ok scan =>
    match reconcile container.slots scan with
    | (.error fault, slots) => (.error fault, { container with slots := slots })
    | (.ok report, slots) => (.ok report, container.adoptReport report slots)

end SlotStore.Container
