import SlotStore.Handle
import SlotStore.Main
import SlotStore.Proofs.Archive.Atomicity
import SlotStore.Proofs.Archive.HeaderRecords
import SlotStore.Proofs.Archive.HeaderTable
import SlotStore.Proofs.Archive.Methods
import SlotStore.Proofs.Codec
import SlotStore.Proofs.Container.Agreement
import SlotStore.Proofs.Container.Appending
import SlotStore.Proofs.Container.BestFit
import SlotStore.Proofs.Container.Capacity
import SlotStore.Proofs.Container.Healing
import SlotStore.Proofs.Container.HighWater
import SlotStore.Proofs.Container.Interruption
import SlotStore.Proofs.Container.Refusal
import SlotStore.Proofs.Container.Root
import SlotStore.Proofs.Container.Streaming
import SlotStore.Proofs.Container.TornAppend
import SlotStore.Proofs.Container.Validation
import SlotStore.Proofs.Container.Views
import SlotStore.Proofs.KeyText
import SlotStore.Proofs.Lz4.Limit
import SlotStore.Proofs.RepairReport
import SlotStore.Settings.Printing
