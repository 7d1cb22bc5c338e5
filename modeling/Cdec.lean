import Cdec.Basic
import Cdec.FastAlign.UMap
import Cdec.FastAlign.TTable
import Cdec.FastAlign.Config
import Cdec.FastAlign.Position
import Cdec.FastAlign.Argmax
import Cdec.FastAlign.Prior
import Cdec.FastAlign.Train
import Cdec.FastAlign.Estep
import Cdec.FastAlign.Final
import Cdec.FastAlign.Score
import Cdec.FastAlign.Dump
import Cdec.FastAlign.Main
import Cdec.FastAlign.Viterbi
import Cdec.FastAlign.Ascent
import Cdec.FastAlign.Reverse
import Cdec.FastAlign.Counts
import Cdec.FastAlign.Report
import Cdec.FastAlign.Abort
import Cdec.FastAlign.Order
import Cdec.FastAlign.Support
import Cdec.Corpus.FilterLength
import Cdec.Corpus.LineFormat
import Cdec.Corpus.Order
import Cdec.Decoder.MapVocab
import Cdec.Decoder.ConvertEdge
import Cdec.Decoder.PrintFinal
import Cdec.Decoder.Search
import Cdec.Decoder.Pass
