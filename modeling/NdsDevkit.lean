import NdsDevkit.Framework.Loop
import NdsDevkit.Framework.Outcome
import NdsDevkit.Framework.Buffer
import NdsDevkit.Framework.FlaggedStream
import NdsDevkit.Framework.BackReference
import NdsDevkit.Framework.ByteField
import NdsDevkit.Framework.KeyAlternating
import NdsDevkit.Ndsc.Pack
import NdsDevkit.Ndsc.Unpack
import NdsDevkit.Ndsc.Format
import NdsDevkit.Ndsc.Decoder
import NdsDevkit.Ndsc.UnpackCorrect
import NdsDevkit.Ndsc.Acceptance
import NdsDevkit.Ndsc.WriterCorrect
import NdsDevkit.Ndsc.PatternMatch
import NdsDevkit.Ndsc.PackCorrect
import NdsDevkit.Ndsc.RoundTrip
import NdsDevkit.Ndsc.HashChain
import NdsDevkit.Ndsc.PatternSearch
import NdsDevkit.Rijndael.Tables
import NdsDevkit.Rijndael.Cipher
import NdsDevkit.Rijndael.Standard
import NdsDevkit.Rijndael.Words
import NdsDevkit.Rijndael.Rounds
import NdsDevkit.Rijndael.Schedule
import NdsDevkit.Rijndael.InverseSchedule
import NdsDevkit.Rijndael.RoundTrip
import NdsDevkit.Page.Zipvfs
import NdsDevkit.Page.Encryption
import NdsDevkit.Page.Bsr
import NdsDevkit.Page.BsrSafety
import NdsDevkit.Page.BsrCorrect
import NdsDevkit.Page.BsrLongestRun
import NdsDevkit.Text.Utf8
import NdsDevkit.Text.Utf8Encode
import NdsDevkit.Text.WellFormed
import NdsDevkit.Text.Utf8Calls
import NdsDevkit.Text.Utf8RoundTrip
import NdsDevkit.Text.Unichar
import NdsDevkit.Text.DecompositionData
import NdsDevkit.Framework.BinarySearch
import NdsDevkit.Framework.SortedInsert
import NdsDevkit.Framework.RingBuffer
import NdsDevkit.Framework.Stream
import NdsDevkit.Collation.UnicharQueue
import NdsDevkit.Collation.QueueRefinement
import NdsDevkit.Collation.Utf8DecomposeIterator
import NdsDevkit.Collation.LookaheadBuffer
import NdsDevkit.Collation.CollationElementIterator
import NdsDevkit.Collation.Reference
import NdsDevkit.Collation.FetchCorrect
import NdsDevkit.Collation.IteratorCorrect
import NdsDevkit.Collation.CheckedIteration
import NdsDevkit.Collation.CompareCorrect
import NdsDevkit.Collation.DecomposedText
import NdsDevkit.Collation.LookaheadCursor
import NdsDevkit.Collation.Refinement
import NdsDevkit.Collation.UnmatchedCharacter
import NdsDevkit.Collation.Clusters
import NdsDevkit.Collation.GermanData
import NdsDevkit.Collation.GermanExpansion
import NdsDevkit.Collation.SimpleEntries
import NdsDevkit.Tokenizer.Arguments
import NdsDevkit.Tokenizer.ExceptionTable
import NdsDevkit.Tokenizer.ArgumentsCorrect
import NdsDevkit.Tokenizer.StringBuffer
import NdsDevkit.Tokenizer.ByteQueue
import NdsDevkit.Tokenizer.CharacterData
import NdsDevkit.Tokenizer.CharacterClass
import NdsDevkit.Tokenizer.Cursor
import NdsDevkit.Tokenizer.Reading
import NdsDevkit.Framework.KeyRuns
import NdsDevkit.Tokenizer.Segmentation
import NdsDevkit.Tokenizer.Steps
import NdsDevkit.Tokenizer.Runs
import NdsDevkit.Tokenizer.Passes
import NdsDevkit.Tokenizer.SegmentationCorrect
import NdsDevkit.Tokenizer.Tokens
import NdsDevkit.Tokenizer.Restart
import NdsDevkit.Tokenizer.TokenText
import NdsDevkit.Tokenizer.Groups
import NdsDevkit.Tokenizer.BigramText
import NdsDevkit.Tokenizer.Spelling
import NdsDevkit.Tokenizer.Asserts
import NdsDevkit.Tokenizer.AssertsHold
import NdsDevkit.Compress.Uri
import NdsDevkit.Compress.Password
import NdsDevkit.Compress.Algorithm
import NdsDevkit.Compress.PageCodec
import NdsDevkit.Compress.LiteralBlock
import NdsDevkit.Framework.BigEndian
import NdsDevkit.Framework.Cells
import NdsDevkit.Zipvfs.Pager
import NdsDevkit.Zipvfs.Slots
import NdsDevkit.Zipvfs.Store
import NdsDevkit.Framework.Chain
import NdsDevkit.Framework.PlainFile
import NdsDevkit.Compress.Session
import NdsDevkit.Zipvfs.Layout
import NdsDevkit.Zipvfs.FreeSlots
import NdsDevkit.Zipvfs.Lookup
import NdsDevkit.Zipvfs.Freeing
import NdsDevkit.Zipvfs.Placing
import NdsDevkit.Zipvfs.Writing
import NdsDevkit.Zipvfs.Truncating
import NdsDevkit.Zipvfs.Expanding
import NdsDevkit.Zipvfs.Access
import NdsDevkit.Zipvfs.Header
import NdsDevkit.Zipvfs.Storage
import NdsDevkit.Zipvfs.Committing
import NdsDevkit.Zipvfs.Compacting
import NdsDevkit.Framework.Simulation
import NdsDevkit.Zipvfs.Connections
import NdsDevkit.Zipvfs.Transactions
import NdsDevkit.Zipvfs.SmallVfs
import NdsDevkit.Zipvfs.Runs
import NdsDevkit.Compress.Detector
import NdsDevkit.Zipvfs.NdsMethods
