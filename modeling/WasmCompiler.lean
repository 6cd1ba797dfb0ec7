import WasmCompiler.ParallelMoveTemp
import WasmCompiler.ParallelMoveSwap
import WasmCompiler.ValidationSoundness
import WasmCompiler.DoublyLinkedList
import WasmCompiler.StackReferences
import WasmCompiler.OccurrenceGroups
import WasmCompiler.OccurrenceLists
import WasmCompiler.CompilerFrame
import WasmCompiler.EmittedCode
import WasmCompiler.RegisterRequests
import WasmCompiler.BranchOperands
import WasmCompiler.BinaryImage
import WasmCompiler.DataSegments
import WasmCompiler.GlobalInitialization
import WasmCompiler.ConditionFlags
import WasmCompiler.LinkedMemory
import WasmCompiler.GlobalRegisters
import WasmCompiler.StaticRegisters
import WasmCompiler.ScratchAllocation
import WasmCompiler.FlagInstructions
import WasmCompiler.FlagWindows
import WasmCompiler.FlagConsumers
import WasmCompiler.InductiveAssertions
import WasmCompiler.StackCheckCode
import WasmCompiler.StackCheckFlow
import WasmCompiler.StackCheckRuns
import WasmCompiler.LinkDataLayout
import WasmCompiler.SectionLoop
import WasmCompiler.ActiveMemoryManager
import WasmCompiler.LinearMemoryAllocator
import WasmCompiler.MemoryProbes
import WasmCompiler.GrowableMemory
import WasmCompiler.LinearMemoryRegion
import WasmCompiler.ParallelMoveSteps
import WasmCompiler.ParallelMoveUnits
import WasmCompiler.ParallelMoveBookkeeping
import WasmCompiler.ParallelMoveSwapCounts
import WasmCompiler.BackwardRecords
import WasmCompiler.ModuleSerialization
import WasmCompiler.BinaryModule
import WasmCompiler.BinaryRecords
import WasmCompiler.BinarySections
import WasmCompiler.BinaryRoundTrip
import WasmCompiler.X86Encoding
import WasmCompiler.BinaryReaders
import WasmCompiler.ValidationLevels
import WasmCompiler.ValidationCompleteness
import WasmCompiler.CompilerMemory
import WasmCompiler.CompilerObject
import WasmCompiler.CompilerReuse
import WasmCompiler.BytecodeReader
import WasmCompiler.Utf8Validation
import WasmCompiler.ConstantOffsets
import WasmCompiler.TypeSection
import WasmCompiler.TypeCanonicalisation
import WasmCompiler.MemoryContracts
import WasmCompiler.RuntimeShrinking
import WasmCompiler.ExportSection
import WasmCompiler.ExportLookup
import WasmCompiler.TempStackSlots
import WasmCompiler.TempStackRuns
import WasmCompiler.ImportMemory
import WasmCompiler.SectionOrder
import WasmCompiler.SectionOrderRuns
import WasmCompiler.BitFields
import WasmCompiler.ConstantMaterialisation
import WasmCompiler.PatchSites
import WasmCompiler.PendingBranchRuns
import WasmCompiler.BackendRegisters
import WasmCompiler.ForwardCode
import WasmCompiler.TracePointTransparency
import WasmCompiler.ByteMemory
import WasmCompiler.TriCoreAddressing
import WasmCompiler.TriCoreMemoryMoves
import WasmCompiler.TriCoreMemoryGrow
import WasmCompiler.TriCoreRegisterPairs
import WasmCompiler.ByteCopies
import WasmCompiler.ResolverStorages
import WasmCompiler.TriCoreAccesses
import WasmCompiler.TriCoreBulkCode
import WasmCompiler.TriCoreBulkMemory
import WasmCompiler.TriCoreBulkOperands
import WasmCompiler.TriCoreCallingConvention
import WasmCompiler.TriCoreReturnCalls
import WasmCompiler.TriCoreWrapper
import WasmCompiler.TriCoreWrapperResults
import WasmCompiler.TriCoreConstants
import WasmCompiler.TriCoreMemoryForms
import WasmCompiler.TriCoreAddressScratch
import WasmCompiler.TriCoreSpills
import WasmCompiler.TriCoreAccessCode
import WasmCompiler.TriCoreLinkedLoads
import WasmCompiler.TriCoreSelectInstr
import WasmCompiler.TriCoreSelectedCode
import WasmCompiler.TriCoreSelectionExact
import WasmCompiler.BumpAllocator
import WasmCompiler.CompilerStack
